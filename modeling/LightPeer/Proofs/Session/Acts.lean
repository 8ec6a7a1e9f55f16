import LightPeer.Proofs.Session.Answers
import LightPeer.Proofs.Session.Delivery

/-!
# Whatever is done with a connection

The owner of a connection begins and ends sessions, and between a beginning and an end there
are the turns of a session; but nothing makes the owner keep to any order.  Each of these acts
is a row of steps, and so is every row of acts.

* `Act.apply_steps` — an act is a row of steps;
* `after_steps` — so is a row of acts;
* `Connection.after_begun` — a session that begins with a few bytes.
-/

namespace LightPeer

/-- Something that happens to a connection. -/
inductive Act
  | connect (peer : Endpoint) (link : Link) (now : Int64)
  | dialFailed (peer : Endpoint) (text : String)
  | disconnect
  | turn (t : Turn)

namespace Act

/-- The connection after an act. -/
def apply (c : Connection) : Act → Connection
  | .connect peer link now => (c.connect peer link now).1
  | .dialFailed peer text => (c.dialFailed peer text).1
  | .disconnect => c.disconnect.1
  | .turn t => t.apply c

/-- The owner sends only messages that are `allowed`.  A filter that the owner hands over is
written, or it does not get as far as the writer; one that is held up half-way, or fails there,
is allowed as a message. -/
def Proper (allowed : Outgoing → Prop) (c : Connection) : Act → Prop
  | .turn (.send m) => allowed m
  | .turn .loadFilter => c.loadFilter.2 = .done ∨ c.loadFilter.1.journal = c.journal ∨
      ∀ f, allowed (.filterLoad f)
  | _ => True

end Act

/-- The connection after a row of acts. -/
def Connection.after (c : Connection) (acts : List Act) : Connection := acts.foldl Act.apply c

/-- Every act is proper in the state in which it happens. -/
def Connection.Proper (allowed : Outgoing → Prop) (c : Connection) : List Act → Prop
  | [] => True
  | act :: acts => act.Proper allowed c ∧ (act.apply c).Proper allowed acts

variable {allowed : Outgoing → Prop} {d : Duty}

namespace Connection

variable {c c' : Connection}

theorem after_cons (c : Connection) (act : Act) (acts : List Act) :
    c.after (act :: acts) = (act.apply c).after acts :=
  rfl

/-- What is done in two rows of acts is done in one row. -/
theorem after_append (c : Connection) (acts more : List Act) :
    c.after (acts ++ more) = (c.after acts).after more :=
  List.foldl_append

/-- A session begins and bytes arrive, which is how every short session in this theory begins. -/
theorem after_connect_deliver (c : Connection) (peer : Endpoint) (link : Link) (now : Int64)
    (bs : Bytes) (ending : Option Ending) :
    c.after [.connect peer link now, .turn (.deliver bs ending)] =
      (c.connect peer link now).1.deliver bs ending :=
  rfl

/-- **A session that begins with a few bytes**:  the peer is greeted, and then the messages in them
are handled. -/
theorem after_begun {first : Connection} {link : Link} {bs rest : Bytes} {ms : List Message}
    {fault : Option Frame.Error} (hstage : first.session.stage = .disconnected)
    (hgreeted : ((first.claimed default).start default link 0).2 = .done)
    (hfresh : (first.begun link).Fresh)
    (hread : Frame.drain (first.begun link).config.network.magic bs = ⟨ms, fault, rest⟩)
    (hsome : bs ≠ []) (hfew : bs.length ≤ 8192) :
    ∃ intake, intake.held = rest ∧
      first.after [.connect default link 0, .turn (.deliver bs none)] =
        ((first.begun link).proceed ⟨ms, fault, intake⟩).readEnding := by
  rw [after_connect_deliver, connect_begun hstage hgreeted hfresh]
  exact hfresh.deliver_first hread hsome hfew

/-- A row of acts is proper if its first part is, and the rest is in the state that this has led
to. -/
theorem Proper.append {acts more : List Act} (h : c.Proper allowed acts)
    (hmore : (c.after acts).Proper allowed more) : c.Proper allowed (acts ++ more) := by
  induction acts generalizing c with
  | nil => exact hmore
  | cons act acts ih => exact ⟨h.1, ih h.2 hmore⟩

/-- Without a session the reader has nothing to do.  The stage tells this from outside, where the
duty of the reader is not known. -/
theorem idle_of_disconnected (h : c.task.duty.Fits c) (hstage : c.session.stage = .disconnected) :
    c.task.duty = .idle := by
  cases htask : c.task with
  | none => rfl
  | finished => rfl
  | closing =>
    rw [htask] at h
    exact absurd hstage h.1
  | _ =>
    rw [htask] at h
    exact absurd hstage (h.stage_ne rfl)

/-- Where there is no session, a peer can have the next one. -/
theorem claim_of_disconnected (h : c.session.stage = .disconnected) (peer : Endpoint) :
    c.claim peer = .ok (c.claimed peer) := by
  rw [claim, Session.isConnected, h]
  rfl

/-- Where there is one, nobody else can have it, whatever has become of it. -/
theorem claim_of_ne (h : c.session.stage ≠ .disconnected) (peer : Endpoint) :
    c.claim peer = .error .alreadyConnected := by
  rw [claim, Session.isConnected, decide_eq_true h, if_pos rfl]

/-- The greeting of a peer, which leads to a session or to none. -/
theorem start_steps (peer : Endpoint) (link : Link) (now : Int64) (h : c.task.duty = .idle)
    (hstage : c.session.stage = .connecting) :
    Steps allowed (.greeting, c.opened)
      ((c.start peer link now).1.task.duty, (c.start peer link now).1) := by
  let told := emit .connection .connected (c.attach link)
  let rolled : Connection := { told with dice := told.dice.roll.2 }
  let hello := Outgoing.version (told.introduction peer now told.dice.roll.1)
  have hlink : c.opened.Aside ((c.attach link).record (.emitted (.connection .connected))) :=
    link_aside link _
  have hrolled : c.opened.Aside rolled :=
    (hlink.trans (emit_aside .connection .connected _)).trans (dice_aside told.dice.roll.2 told)
  have hsent : Steps allowed (.greeting, c.opened) (.greeting, (rolled.transmit hello).1) := by
    rcases transmit_cases hello rolled with ⟨haside, _⟩ | ⟨⟨between, hbefore, _, hafter⟩, _⟩
    · exact .single (.aside (hrolled.trans haside))
    · have hready : Step allowed (.greeting, c.opened) (.greeting, between) :=
        .aside (hrolled.trans hbefore)
      exact ((Relation.ReflTransGen.single hready).tail (.introduces _)).tail (.aside hafter)
  have htask : (rolled.transmit hello).1.task = c.task :=
    (transmit_wrote hello rolled).reader.task.trans
      (emit_undisturbed .connection .connected (c.attach link)).task
  have hgreeted : ∀ greeted progress, rolled.transmit hello = (greeted, progress) →
      Steps allowed (.greeting, c.opened) (.greeting, greeted) ∧ greeted.task.duty = .idle := by
    intro greeted progress hresult
    rw [hresult] at hsent htask
    exact ⟨hsent, (congrArg Task.duty htask).trans h⟩
  unfold start
  dsimp only
  split
  · next greeted hdone =>
    obtain ⟨hsteps, _⟩ := hgreeted greeted .done hdone
    exact (hsteps.tail .begins).tail (.aside (task_aside (.reading {}) _))
  · next greeted unsent hblocked =>
    obtain ⟨hsteps, hidle⟩ := hgreeted greeted (.blocked unsent) hblocked
    dsimp only
    rw [hidle]
    exact hsteps.tail .leaves
  · next greeted cause hfailed =>
    obtain ⟨hsteps, hidle⟩ := hgreeted greeted (.failed cause) hfailed
    have hnoticed := hsteps.tail (.aside (notice_aside (n := .versionUnsent peer cause) trivial))
    split
    · show Steps _ _ (greeted.task.duty, _)
      rw [hidle]
      exact hnoticed.tail .strands
    · have htask' : (greeted.notice (.versionUnsent peer cause)).hangUp.endSession.task =
          greeted.task := (endSession_undisturbed _).task
      have hnoticed' : Steps allowed (.greeting, c.opened) _ := hnoticed
      dsimp only
      rw [htask', hidle]
      exact hnoticed.trans (endSession_steps rfl (hnoticed'.fits ⟨hstage, rfl, rfl, rfl⟩))

/-- Without a session, one is begun and its link is open. -/
theorem connect_opened (peer : Endpoint) (link : Link) (now : Int64) (h : c.task.duty.Fits c)
    (hstage : c.session.stage = .disconnected) :
    Steps allowed (.greeting, (c.claimed peer).opened)
      ((c.connect peer link now).1.task.duty, (c.connect peer link now).1) := by
  have hidle := idle_of_disconnected h hstage
  have hstarted : Steps allowed (.greeting, (c.claimed peer).opened) _ :=
    start_steps peer link now hidle rfl
  unfold connect
  rw [claim_of_disconnected hstage]
  exact hstarted.trans (settle_steps (hstarted.fits ⟨rfl, rfl, rfl, rfl⟩))

/-- **A second session is refused**, and nothing of the link that was opened for it is kept. -/
theorem connect_refused (peer : Endpoint) (link : Link) (now : Int64)
    (hstage : c.session.stage ≠ .disconnected) :
    c.connect peer link now = (c, .failed .alreadyConnected) := by
  rw [connect, claim_of_ne hstage]

/-- A session that begins, and all that the reader then does by itself, is a row of steps. -/
theorem connect_steps (peer : Endpoint) (link : Link) (now : Int64) (h : c.task.duty.Fits c) :
    Steps allowed (c.task.duty, c)
      ((c.connect peer link now).1.task.duty, (c.connect peer link now).1) := by
  by_cases hstage : c.session.stage = .disconnected
  · have hopened : Steps allowed _ _ := connect_opened peer link now h hstage
    rw [idle_of_disconnected h hstage]
    exact (hopened.head .opens).head (.claims peer hstage)
  · rw [connect_refused peer link now hstage]

/-- A link that could not be opened is not even reported while there is a session. -/
theorem dialFailed_refused (peer : Endpoint) (text : String)
    (hstage : c.session.stage ≠ .disconnected) :
    c.dialFailed peer text = (c, .failed .alreadyConnected) := by
  rw [dialFailed, claim_of_ne hstage]

/-- Without a session it is reported, between two stages that are entered. -/
theorem dialFailed_of_disconnected (peer : Endpoint) (text : String)
    (hstage : c.session.stage = .disconnected) :
    c.dialFailed peer text =
      (((c.claimed peer).notice (.dialFailed peer text)).enter .disconnected,
        .failed (.io text)) := by
  rw [dialFailed, claim_of_disconnected hstage]

/-- The session is claimed, the trouble is reported, and the session is gone. -/
theorem dialFailed_steps (peer : Endpoint) (text : String) (h : c.task.duty.Fits c) :
    Steps allowed (c.task.duty, c)
      ((c.dialFailed peer text).1.task.duty, (c.dialFailed peer text).1) := by
  by_cases hstage : c.session.stage = .disconnected
  · have hidle := idle_of_disconnected h hstage
    have hclaims : Step allowed (.idle, c) (.dialling, c.claimed peer) := .claims peer hstage
    have hnoticed : Step allowed (.dialling, c.claimed peer)
        (.dialling, (c.claimed peer).notice (.dialFailed peer text)) :=
      .aside (notice_aside trivial)
    rw [dialFailed_of_disconnected peer text hstage]
    show Steps _ _ (c.task.duty, _)
    rw [hidle]
    exact ((Relation.ReflTransGen.single hclaims).tail hnoticed).tail .fails
  · rw [dialFailed_refused peer text hstage]

/-- The session is ended for a reader who is given up. -/
theorem giveUp_steps (h : c.signals.parted = false) :
    Steps allowed (.closing, c)
      (.idle, { (c.ask.notice .readerAborted).endSession with task := .none }) := by
  have hasked : Step allowed (.closing, c) (.closing, c.ask) := .asks rfl
  have hnoticed : Step allowed (.closing, c.ask) (.closing, c.ask.notice .readerAborted) :=
    .aside (notice_aside trivial)
  exact ((((Relation.ReflTransGen.single hasked).tail hnoticed).tail .ends).tail
    (.aside (ended_aside h))).tail (.aside (task_aside .none _))

/-- The session is ended when the reader has come to an end. -/
theorem comeToEnd_steps (link : Link) (h : c.signals.parted = false) :
    Steps allowed (.closing, c)
      (.idle, { ({ c.ask with link } : Connection).endSession with task := .none }) := by
  have hasked : Step allowed (.closing, c) (.closing, c.ask) := .asks rfl
  have hclosed : Step allowed (.closing, c.ask) (.closing, { c.ask with link }) :=
    .aside (link_aside link _)
  exact ((((Relation.ReflTransGen.single hasked).tail hclosed).tail .ends).tail
    (.aside (ended_aside h))).tail (.aside (task_aside .none _))

/-- A reader that is there can be called away, and its link can be hung up. -/
theorem reading_of_fits (h : c.task.duty.Fits c) (hnone : c.task ≠ .none)
    (hfinished : c.task ≠ .finished) (hclosing : c.task ≠ .closing) :
    c.task.duty.isLive ∧ c.signals = .reading := by
  cases htask : c.task with
  | none => exact absurd htask hnone
  | finished => exact absurd htask hfinished
  | closing => exact absurd htask hclosing
  | _ =>
    rw [htask] at h
    exact ⟨rfl, h.2.2⟩

/-- The end of a session is a row of steps, whatever its reader is doing.  The cases are those of
the task. -/
theorem disconnect_steps (hfits : c.task.duty.Fits c) :
    Steps allowed (c.task.duty, c) (c.disconnect.1.task.duty, c.disconnect.1) := by
  have hlive (hd : c.task.duty.isLive) (hparted : c.signals.parted = false) :
      Steps allowed (c.task.duty, c) (.idle,
        if c.link.stallClose then
          { (({ c.ask with writer := none } : Connection).notice .readerAborted).endSession with
            task := .none }
        else { c.ask.hangUp.endSession with task := .none }) := by
    have hhung : Step allowed (c.task.duty, c) (.closing, { c with writer := none }) := .hangsUp hd
    split
    · exact (giveUp_steps (c := { c with writer := none }) hparted).head hhung
    · exact (comeToEnd_steps (c := { c with writer := none }) c.hangUp.link hparted).head hhung
  unfold disconnect
  split
  · exact .refl
  · next htask =>
    rw [htask]
    exact (Relation.ReflTransGen.single (.asks rfl)).tail (.aside (task_aside .none c.ask))
  · next htask =>
    have hduty : c.task.duty = .closing := congrArg Task.duty htask
    rw [hduty] at hfits ⊢
    split
    · exact giveUp_steps hfits.2.2
    · exact comeToEnd_steps _ hfits.2.2
  · next hnone hfinished hclosing =>
    obtain ⟨hd, hreading⟩ := reading_of_fits hfits hnone hfinished hclosing
    have hbell : c.signals.bell = true := by rw [hreading, Signals.reading]
    have hsteps := hlive hd (hfits.parted_eq hd)
    rw [if_pos hbell]
    split
    · next hstall =>
      rw [if_pos hstall] at hsteps
      exact hsteps
    · next hstall =>
      rw [if_neg hstall] at hsteps
      exact hsteps

/-- A link that is another one all at once is read on. -/
theorem relink_steps (link : Link) (hfits : c.task.duty.Fits c) :
    Steps allowed (c.task.duty, c)
      (({ c with link } : Connection).settle.task.duty, ({ c with link } : Connection).settle) := by
  have hlinked := link_aside link c
  exact (settle_steps (c := { c with link }) (hfits.aside hlinked)).head (.aside hlinked)

/-- The duty of a reader tells whether a reply is on its way. -/
theorem isWaiting_duty (c : Connection) : c.task.duty.isWaiting = c.isReplying := by
  rw [isReplying]
  cases c.task <;> rfl

/-- The owner's message is an order, and it is given only when no reply is on its way. -/
theorem send_steps {m : Outgoing} (hm : allowed m) (c : Connection) :
    Steps allowed (c.task.duty, c) ((c.send m).1.task.duty, (c.send m).1) := by
  rw [(send_wrote m c).reader.task]
  unfold send
  split
  · exact .refl
  · next hfree =>
    have hwaiting : c.task.duty.isWaiting = false :=
      c.isWaiting_duty.trans (Bool.eq_false_iff.mpr hfree)
    rcases transmit_cases m c with ⟨haside, _⟩ | ⟨⟨between, hbefore, hwriter, hafter⟩, _⟩
    · exact .single (.aside haside)
    · exact ((Relation.ReflTransGen.single (.aside hbefore)).tail
        (.orders hm hwaiting hwriter)).tail (.aside hafter)

/-- An aside is one as well when it has been noted that the peer has a filter. -/
theorem Aside.markLoaded (h : c.Aside c') : c.markLoaded.Aside c'.markLoaded :=
  ⟨h.config, by rw [Connection.markLoaded, Connection.markLoaded, h.session], h.writer, h.signals,
    h.watched, fun htold => (h.told (htold.quiet rfl rfl rfl rfl)).quiet rfl rfl rfl rfl,
    h.journal⟩

/-- An aside does not change whether the peer takes filters. -/
theorem TakesFilter.aside (h : c.TakesFilter) (haside : c.Aside c') : c'.TakesFilter := by
  constructor
  · rw [haside.session]
    exact h.stage
  · rw [haside.session]
    exact h.services

/-- What is handed over is written down, so a call that leaves the journal as it was has handed over
nothing. -/
theorem Handed.journal_ne {m : Outgoing} {progress : Progress} (h : Handed m c c' progress) :
    c'.journal ≠ c.journal := by
  obtain ⟨between, hbefore, _, hafter⟩ := h.sent
  obtain ⟨entries, hentries, _⟩ := hbefore.journal
  obtain ⟨entries', hentries', _⟩ := hafter.journal
  intro hsame
  have hlength : c'.journal.length = c.journal.length := congrArg List.length hsame
  rw [hentries', record, hentries] at hlength
  simp only [List.length_append, List.length_singleton] at hlength
  omega

/-- A filter of the owner that is written is noted in the same step, so that no request comes
between.  One that does not get as far as the writer leaves nothing; and if filters may be sent as
messages, it does not matter which it is. -/
theorem transmitFilter_loads (htakes : c.TakesFilter) (hfilter : c.hasFilter)
    (hfree : d.isWaiting = false)
    (hproper : c.transmitFilter.2 = .done ∨ c.transmitFilter.1.journal = c.journal ∨
      ∀ f, allowed (.filterLoad f)) :
    Steps allowed (d, c) (d, c.transmitFilter.1) := by
  rw [transmitFilter_eq htakes hfilter] at hproper ⊢
  have hrolled : Step allowed (d, c) (d, { c with dice := c.dice.roll.2 }) :=
    .aside (dice_aside _ c)
  dsimp only at hproper ⊢
  rcases transmit_cases (.filterLoad c.nextFilter) { c with dice := c.dice.roll.2 } with
    ⟨haside, hwaits⟩ | hhanded
  · have hundone : (({ c with dice := c.dice.roll.2 } : Connection).transmit
        (.filterLoad c.nextFilter)).2 ≠ .done := by
      rcases hwaits with hblocked | ⟨cause, hfailed⟩
      · rw [hblocked]
        nofun
      · rw [hfailed]
        nofun
    rw [if_neg hundone]
    exact (Relation.ReflTransGen.single hrolled).tail (.aside haside)
  · obtain ⟨between, hbefore, hwriter, hafter⟩ := hhanded.sent
    have hready := (Relation.ReflTransGen.single hrolled).tail (.aside hbefore)
    split at hproper
    · next hdone =>
      have htakes' := htakes.aside ((dice_aside c.dice.roll.2 c).trans hbefore)
      rw [if_pos hdone]
      exact (hready.tail (.loads htakes' hfree hwriter)).tail (.aside hafter.markLoaded)
    · next hundone =>
      rw [if_neg hundone]
      rcases hproper with hdone | hsame | hallowed
      · exact absurd hdone hundone
      · exact absurd hsame hhanded.journal_ne
      · exact (hready.tail (.orders (hallowed _) hfree hwriter)).tail (.aside hafter)

/-- The owner's filter is one step if the peer is handed one, and otherwise an aside, which nobody
is told of. -/
theorem loadFilter_steps (c : Connection)
    (hproper : c.loadFilter.2 = .done ∨ c.loadFilter.1.journal = c.journal ∨
      ∀ f, allowed (.filterLoad f)) :
    Steps allowed (c.task.duty, c) (c.loadFilter.1.task.duty, c.loadFilter.1) := by
  rw [(loadFilter_wrote c).reader.task]
  by_cases hbusy : (c.isReplying && c.hasFilter && c.session.stage = .ready &&
      c.session.services.contains .bloom) = true
  · rw [loadFilter, if_pos hbusy]
  · rw [loadFilter, if_neg hbusy] at hproper ⊢
    by_cases htakes : c.TakesFilter
    · cases hfilter : c.hasFilter with
      | false => rw [transmitFilter_nothing htakes hfilter]
      | true =>
        have hfree : c.task.duty.isWaiting = false := by
          rw [isWaiting_duty]
          simpa [hfilter, htakes.stage, htakes.services] using hbusy
        exact transmitFilter_loads htakes hfilter hfree hproper
    · obtain ⟨cause, hrefused⟩ := transmitFilter_refused htakes
      rw [hrefused]

end Connection

open Connection

/-- What happens in a turn is a row of steps. -/
theorem Turn.apply_steps {c : Connection} {turn : Turn}
    (hproper : (Act.turn turn).Proper allowed c) (hfits : c.task.duty.Fits c) :
    Steps allowed (c.task.duty, c) ((turn.apply c).task.duty, turn.apply c) := by
  cases turn with
  | deliver bytes ending => exact relink_steps (c.link.receive bytes ending) hfits
  | relink change => exact relink_steps (change c.link) hfits
  | send m => exact send_steps hproper c
  | loadFilter => exact loadFilter_steps c hproper
  | watch addresses =>
    have htask : (c.watch addresses).1.task = c.task := (c.watch_undisturbed addresses).task
    show Steps _ _ ((c.watch addresses).1.task.duty, (c.watch addresses).1)
    rw [htask]
    exact .single (.aside (c.watch_aside addresses))
  | tune policy => exact .single (.aside (setPolicy_aside policy c))
  | listen kind listener => exact .single (.aside (listen_aside kind listener c))
  | remove id => exact .single (.aside (removeListener_aside id c))

/-- **An act is a row of steps**, so that what a step keeps is kept by whatever the owner and the
peer do. -/
theorem Act.apply_steps {c : Connection} {act : Act} (hproper : act.Proper allowed c)
    (hfits : c.task.duty.Fits c) :
    Steps allowed (c.task.duty, c) ((act.apply c).task.duty, act.apply c) := by
  cases act with
  | connect peer link now => exact connect_steps peer link now hfits
  | dialFailed peer text => exact dialFailed_steps peer text hfits
  | disconnect => exact disconnect_steps hfits
  | turn turn => exact Turn.apply_steps hproper hfits

/-- If all messages are allowed, then so is everything that is done. -/
theorem Connection.Proper.of_forall (hallowed : ∀ m, allowed m) (c : Connection)
    (acts : List Act) : c.Proper allowed acts := by
  induction acts generalizing c with
  | nil => trivial
  | cons act acts ih =>
    refine ⟨?_, ih _⟩
    rcases act with _ | _ | _ | turn
    · trivial
    · trivial
    · trivial
    · cases turn with
      | send m => exact hallowed m
      | loadFilter => exact .inr (.inr fun f => hallowed _)
      | _ => trivial

/-- Acts are rows of steps from any state in which duty, stage, writer and signals go together. -/
theorem after_steps {c : Connection} {acts : List Act} (hproper : c.Proper allowed acts)
    (hfits : c.task.duty.Fits c) :
    Steps allowed (c.task.duty, c) ((c.after acts).task.duty, c.after acts) := by
  induction acts generalizing c with
  | nil => exact .refl
  | cons act acts ih =>
    have hact := Act.apply_steps hproper.1 hfits
    exact hact.trans (ih hproper.2 (hact.fits hfits))

/-- A new connection has no session, and nothing to do. -/
theorem new_fits (config : Config) (supply : IdSupply) (dice : Dice) :
    (Connection.new config supply dice).task.duty.Fits (.new config supply dice) :=
  Or.inl ⟨rfl, rfl⟩

/-- Whatever is done with a new connection comes about in steps. -/
theorem new_after_steps (config : Config) (supply : IdSupply) (dice : Dice) (acts : List Act) :
    Steps (fun _ => True) (.idle, .new config supply dice)
      (((Connection.new config supply dice).after acts).task.duty,
        (Connection.new config supply dice).after acts) :=
  after_steps (.of_forall (fun _ => trivial) _ acts) (new_fits config supply dice)

end LightPeer
