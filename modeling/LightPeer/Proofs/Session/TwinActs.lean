import LightPeer.Proofs.Session.Twins

/-!
# Twins in whatever is done with them

A session that is begun makes twins of two connections, whatever links lie behind them, and twins
remain twins in all that the owner, the peer and the listeners do from then on.

* `Twins.start` — a beginning makes twins;
* `Twins.disconnect` — an end is the same for both;
* `Twins.after` — so is whatever is done with both.
-/

namespace LightPeer

open Connection Kinship

variable {k : Kinship} {c c' : Connection}

namespace Kinship

/-- The same link is taken up on both sides, and nothing is left to be written from before. -/
theorem Twins.attach {link link' : Link} (h : k.Twins c c') (hlink : k.Links link link') :
    k.Twins (c.attach link) (c'.attach link') := by
  have hsignals : c.task.duty = .idle ∨ c'.signals.renew = c.signals.renew :=
    h.signals.imp_right (congrArg Signals.renew)
  exact { h with link := hlink, writer := .some (.same []), signals := hsignals }

/-- The owner wants the session to end on both sides. -/
theorem Twins.ask (h : k.Twins c c') : k.Twins c.ask c'.ask := by
  have hsignals : c.task.duty = .idle ∨ c'.ask.signals = c.ask.signals :=
    h.signals.imp_right (congrArg fun s : Signals => { s with stopping := true, bell := false })
  exact { h with signals := hsignals }

/-- **A beginning makes twins.**  Links and bytes of sessions before do not matter. -/
theorem Twins.start (hk : k.Lawful) {link link' : Link} (peer : Endpoint) {now now' : Int64}
    (h : k.Twins (c.attach link) (c'.attach link')) (hnow : k.exact → now' = now) :
    k.Results (c.start peer link now) (c'.start peer link' now') := by
  have htold := h.emit hk .connection .connected
  have hsame := (emit_undisturbed .connection .connected (c.attach link)).signals
  have hsame' := (emit_undisturbed .connection .connected (c'.attach link')).signals
  unfold Connection.start
  dsimp only
  generalize Connection.emit .connection .connected (c.attach link) = told at htold hsame ⊢
  generalize Connection.emit .connection .connected (c'.attach link') = told' at htold hsame' ⊢
  have hm : k.Messages (.version (told.introduction peer now told.dice.roll.1))
      (.version (told'.introduction peer now' told'.dice.roll.1)) := by
    refine ⟨?_, fun hexact => ?_⟩
    · rw [introduction, introduction, htold.config, htold.hasFilter_eq]
      exact .introduction (told.introduction peer now told.dice.roll.1) now' told'.dice.roll.1
    · rw [introduction, introduction, htold.config, htold.hasFilter_eq, htold.roll_eq hexact,
        hnow hexact]
  have hrolled := htold.chance fun hexact => congrArg Prod.snd (htold.roll_eq hexact)
  have hsent := hrolled.transmit hk hm
  have hwrote := transmit_wrote (.version (told.introduction peer now told.dice.roll.1))
    { told with dice := told.dice.roll.2 }
  have hwrote' := transmit_wrote (.version (told'.introduction peer now' told'.dice.roll.1))
    { told' with dice := told'.dice.roll.2 }
  have hsignals := hwrote.reader.signals.trans hsame
  have hsignals' := hwrote'.reader.signals.trans hsame'
  generalize Connection.transmit _ { told with dice := told.dice.roll.2 } = sent
    at hsent hsignals ⊢
  generalize Connection.transmit _ { told' with dice := told'.dice.roll.2 } = sent'
    at hsent hsignals' ⊢
  clear hwrote hwrote'
  cases hsent with
  | @done greeted greeted' htwins =>
    -- Whatever has been asked of the readers before, nothing is asked of those that begin.
    have hawait (c : Connection) {before : Signals} (h : c.signals = before.renew) :
        c.await.signals = .reading := congrArg (fun s : Signals => { s with bell := true }) h
    exact .done { htwins.enter hk .awaitingVerack with
      task := .reading {}
      signals := .inr ((hawait greeted' hsignals').trans (hawait greeted hsignals).symm) }
  | blocked htwins hunsent => exact .blocked htwins hunsent
  | failed htwins cause =>
    have hnoticed := htwins.notice hk (.versionUnsent peer cause)
    dsimp only
    rw [hnoticed.stallClose_eq]
    split
    · exact .blocked { hnoticed with writer := .none } .none
    · have hparted : _ = false := congrArg Signals.parted hsignals
      have hparted' : _ = false := congrArg Signals.parted hsignals'
      exact .failed (hnoticed.hangUp.endSession hk (hparted'.trans hparted.symm)) cause

/-- A session with the same peer is claimed on both sides. -/
theorem Twins.claimed (hk : k.Lawful) (h : k.Twins c c') (peer : Endpoint) :
    k.Twins (c.claimed peer) (c'.claimed peer) := by
  have hfresh : k.Twins { c with session := { peer := some peer } }
      { c' with session := { peer := some peer } } := { h with session := rfl }
  exact hfresh.enter hk .connecting

/-- Where there is no session, one begins, and the reader does what it can at once. -/
theorem connect_of_disconnected (h : c.session.stage = .disconnected) (peer : Endpoint)
    (link : Link) (now : Int64) :
    (c.connect peer link now).1 = ((c.claimed peer).start peer link now).1.settle := by
  rw [Connection.connect, claim_of_disconnected h]

/-- **A session begins on both sides or on neither**, for the stage that decides this is the same on
both. -/
theorem Twins.connect (hk : k.Lawful) (h : k.Twins c c') (peer : Endpoint) (link : Link)
    (now : Int64) : k.Twins (c.connect peer link now).1 (c'.connect peer link now).1 := by
  have hstage : c'.session.stage = c.session.stage := congrArg Session.stage h.session
  by_cases hgone : c.session.stage = .disconnected
  · have hlinked : k.Twins ((c.claimed peer).attach link) ((c'.claimed peer).attach link) :=
      (h.claimed hk peer).attach (.same link)
    rw [connect_of_disconnected hgone, connect_of_disconnected (hstage.trans hgone)]
    exact (Twins.start hk peer hlinked fun _ => rfl).twins.settle hk
  · rw [connect_refused peer link now hgone, connect_refused peer link now (hstage ▸ hgone)]
    exact h

/-- A link that cannot be opened is reported on both sides. -/
theorem Twins.dialFailed (hk : k.Lawful) (h : k.Twins c c') (peer : Endpoint) (text : String) :
    k.Twins (c.dialFailed peer text).1 (c'.dialFailed peer text).1 := by
  have hstage : c'.session.stage = c.session.stage := congrArg Session.stage h.session
  by_cases hgone : c.session.stage = .disconnected
  · rw [dialFailed_of_disconnected peer text hgone,
      dialFailed_of_disconnected peer text (hstage.trans hgone)]
    exact ((h.claimed hk peer).notice hk _).enter hk .disconnected
  · rw [dialFailed_refused peer text hgone, dialFailed_refused peer text (hstage ▸ hgone)]
    exact h

/-- Whatever an owner who ends no session asks for, nobody hears it. -/
theorem disconnect_of_idle (h : c.task.duty = .idle) :
    c.disconnect.1 = { c with task := .none } ∨ c.disconnect.1 = { c.ask with task := .none } := by
  rcases eq_of_idle h with htask | htask
  · have hnone : c.disconnect.1 = c := by rw [Connection.disconnect, htask]
    rw [hnone, ← htask]
    exact .inl rfl
  · rw [Connection.disconnect, htask]
    exact .inr rfl

/-- Without a reader it makes no difference what one is told. -/
theorem Twins.idle (h : k.Twins c c') (signals signals' : Signals) :
    k.Twins { c with task := .none, signals } { c' with task := .none, signals := signals' } :=
  { h with task := .idle rfl rfl, signals := .inl rfl }

/-- The owner sees the link closed, or gives it up. -/
theorem disconnect_of_closing (h : c.task = .closing) :
    c.disconnect.1 =
      if c.link.stallClose then { (c.ask.notice .readerAborted).endSession with task := .none }
      else { { c.ask with link := { c.link with closed := true } }.endSession with
        task := .none } := by
  unfold Connection.disconnect
  split
  · next htask => cases htask.symm.trans h
  · next htask => cases htask.symm.trans h
  · split <;> rfl
  · next hother => exact absurd h hother

/-- The owner calls the reader away, or gives it up. -/
theorem disconnect_of_live (h : c.task.duty.isLive) :
    c.disconnect.1 =
      if c.signals.bell then
        if c.link.stallClose then
          { ({ c.ask with writer := none }.notice .readerAborted).endSession with task := .none }
        else { c.ask.hangUp.endSession with task := .none }
      else if c.link.stallClose then
        { c.ask.notice .readerAborted with writer := none, task := .none }
      else { (c.ask.notice .readerAborted).hangUp.endSession with task := .none } := by
  have hnot (task : Task) (hdead : task.duty.isLive = false) : c.task ≠ task := by
    rintro rfl
    rw [hdead] at h
    cases h
  unfold Connection.disconnect
  split
  · next htask => exact absurd htask (hnot _ rfl)
  · next htask => exact absurd htask (hnot _ rfl)
  · next htask => exact absurd htask (hnot _ rfl)
  · split <;> split <;> rfl

/-- However a session is ended, it is ended in the same way on both sides. -/
theorem Twins.disconnect (hk : k.Lawful) (h : k.Twins c c') :
    k.Twins c.disconnect.1 c'.disconnect.1 := by
  have hover {c c' : Connection} (h : k.Twins c c') (hsignals : c'.signals = c.signals) :
      k.Twins { c.endSession with task := .none } { c'.endSession with task := .none } :=
    { h.endSession hk (congrArg Signals.parted hsignals) with
      task := .idle rfl rfl
      signals := .inl rfl }
  rcases h.reader with ⟨hidle, hidle'⟩ | ⟨hclosing, hclosing'⟩ | ⟨hlive, hlive'⟩
  · rcases disconnect_of_idle hidle with hone | hone <;>
      rcases disconnect_of_idle hidle' with hother | hother <;> rw [hone, hother] <;>
      exact h.idle _ _
  · have hsignals : c'.signals = c.signals := h.signals_eq (by rw [hclosing]; nofun)
    have hasked : c'.ask.signals = c.ask.signals :=
      congrArg (fun s : Signals => { s with stopping := true, bell := false }) hsignals
    rw [disconnect_of_closing hclosing, disconnect_of_closing hclosing', h.stallClose_eq]
    split
    · exact hover (h.ask.notice hk .readerAborted) hasked
    · obtain ⟨outbound, hlink, hwritten⟩ := h.link
      have hclosed : k.Twins { c.ask with link := { c.link with closed := true } }
          { c'.ask with link := { c'.link with closed := true } } :=
        { h.ask with link := ⟨outbound, by rw [hlink], hwritten⟩ }
      exact hover hclosed hasked
  · have hsignals : c'.signals = c.signals := h.signals_eq fun hidle => by
      rw [hidle] at hlive
      cases hlive
    have hasked : c'.ask.signals = c.ask.signals :=
      congrArg (fun s : Signals => { s with stopping := true, bell := false }) hsignals
    have hcut : k.Twins { c.ask with writer := none } { c'.ask with writer := none } :=
      { h.ask with writer := .none }
    have hnoticed := h.ask.notice hk .readerAborted
    rw [disconnect_of_live hlive, disconnect_of_live hlive', h.stallClose_eq, hsignals]
    split
    · split
      · exact hover (hcut.notice hk .readerAborted) hasked
      · exact hover h.ask.hangUp hasked
    · split
      · exact { hnoticed with writer := .none, task := .idle rfl rfl, signals := .inl rfl }
      · exact hover hnoticed.hangUp hasked

/-- The peer sends the same bytes to both, and they are read in the same portions. -/
theorem Twins.deliver (hk : k.Lawful) (h : k.Twins c c') (bs : Bytes) (ending : Option Ending) :
    k.Twins (c.deliver bs ending) (c'.deliver bs ending) := by
  obtain ⟨outbound, hlink, hwritten⟩ := h.link
  have hreceived : k.Twins { c with link := c.link.receive bs ending }
      { c' with link := c'.link.receive bs ending } :=
    { h with link := ⟨outbound, by rw [hlink, Link.receive, Link.receive], hwritten⟩ }
  exact hreceived.settle hk

/-- The same list is accepted on both sides, or refused. -/
theorem Twins.watch (hk : k.Lawful) (h : k.Twins c c') (addresses : List String) :
    k.Twins (c.watch addresses).1 (c'.watch addresses).1 := by
  unfold Connection.watch
  cases watchedOf addresses with
  | error cause => exact h
  | ok watched =>
    have hwatching : k.Twins { c with watched } { c' with watched } := { h with watched := rfl }
    exact hwatching.record hk (.watching addresses)

/-- Filters are built in the same way from here on. -/
theorem Twins.setPolicy (hk : k.Lawful) (h : k.Twins c c') (policy : FilterPolicy) :
    k.Twins (c.setPolicy policy) (c'.setPolicy policy) := by
  have htuned : k.Twins { c with policy } { c' with policy } := { h with policy := rfl }
  exact htuned.record hk (.tuning policy)

/-- Listeners that may stand for each other get the same handle. -/
theorem Twins.listen (h : k.Twins c c') {kind : ListenerKind} {listener listener' : Listener kind}
    (hreactions : ∀ event, k.reactions (listener event) (listener' event)) :
    (c'.listen kind listener').1 = (c.listen kind listener).1 ∧
      k.Twins (c.listen kind listener).2 (c'.listen kind listener').2 := by
  unfold Connection.listen
  rw [h.supply]
  exact ⟨rfl, { h with supply := rfl, listeners := h.listeners.add _ hreactions }⟩

/-- The same handle is removed, and the owner is told the same. -/
theorem Twins.removeListener (h : k.Twins c c') (id : ListenerId) :
    (c'.removeListener id).1 = (c.removeListener id).1 ∧
      k.Twins (c.removeListener id).2 (c'.removeListener id).2 :=
  ⟨h.listeners.contains_eq id, { h with listeners := h.listeners.remove id }⟩

end Kinship

/-- A peer may look at how many bytes lie untaken when it handles the link, and take some of them,
but it does not go by what they are. -/
def Link.IsBlind (change : Link → Link) : Prop :=
  ∀ link outbound, outbound.length = link.outbound.length →
    ∃ left, change { link with outbound } = { change link with outbound := left } ∧
      left.length = (change link).outbound.length

namespace Kinship

/-- The links change their ways in the same way, if the peer does not go by what lies on them
untaken, or if that is the same as well. -/
theorem Twins.relink (hk : k.Lawful) (h : k.Twins c c') {change : Link → Link}
    (hchange : k.exact ∨ Link.IsBlind change) : k.Twins (c.relink change) (c'.relink change) := by
  have hlinks : k.Links (change c.link) (change c'.link) := by
    obtain ⟨outbound, hlink, hlength, hsame⟩ := h.link
    -- With the same luck the links are equal, and then the peer may go by the bytes as well.
    by_cases hexact : k.exact
    · rw [hlink, hsame hexact]
      exact .same (change c.link)
    · obtain ⟨left, hleft, hnumber⟩ := hchange.resolve_left hexact c.link outbound hlength
      rw [hlink]
      exact ⟨left, hleft, hnumber, fun hsure => absurd hsure hexact⟩
  have hchanged : k.Twins { c with link := change c.link } { c' with link := change c'.link } :=
    { h with link := hlinks }
  exact hchanged.settle hk

/-- What is done is the same on both sides, but for what listeners do that are registered. -/
inductive Acts (k : Kinship) : Act → Act → Prop
  | same {act : Act}
      (hrelink : ∀ change, act = .turn (.relink change) → k.exact ∨ Link.IsBlind change)
      (hlisten : ∀ kind listener, act ≠ .turn (.listen kind listener)) : Acts k act act
  | listen (kind : ListenerKind) {listener listener' : Listener kind}
      (h : ∀ event, k.reactions (listener event) (listener' event)) :
    Acts k (.turn (.listen kind listener)) (.turn (.listen kind listener'))

/-- **Whatever is done with both, twins remain twins.**  One case for each act. -/
theorem Twins.apply (hk : k.Lawful) (h : k.Twins c c') {act act' : Act} (hact : k.Acts act act') :
    k.Twins (act.apply c) (act'.apply c') := by
  cases hact with
  | listen kind hreactions => exact (h.listen hreactions).2
  | same hrelink hlisten =>
    cases act with
    | connect peer link now => exact h.connect hk peer link now
    | dialFailed peer text => exact h.dialFailed hk peer text
    | disconnect => exact h.disconnect hk
    | turn turn =>
      cases turn with
      | deliver bytes ending => exact h.deliver hk bytes ending
      | relink change => exact h.relink hk (hrelink change rfl)
      | send m => exact (h.send hk m).twins
      | loadFilter => exact (h.loadFilter hk).twins
      | watch addresses => exact h.watch hk addresses
      | tune policy => exact h.setPolicy hk policy
      | listen kind listener => exact absurd rfl (hlisten kind listener)
      | remove id => exact (h.removeListener id).2

/-- **Twins remain twins, whatever is done with both**, by one act after another. -/
theorem Twins.after (hk : k.Lawful) (h : k.Twins c c') {acts acts' : List Act}
    (hacts : List.Forall₂ k.Acts acts acts') : k.Twins (c.after acts) (c'.after acts') := by
  induction hacts generalizing c c' with
  | nil => exact h
  | cons hact _ ih => exact ih (h.apply hk hact)

end Kinship

end LightPeer
