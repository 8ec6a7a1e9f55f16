import LightPeer.Proofs.Session.Reader
import LightPeer.Proofs.Session.Steps

/-!
# Sessions in which the peer says little

A reader that waits for the first bytes of a session takes them all at once, if they are few and the
link does not hold any back.  What comes of them is then what comes of the messages in them.

* `Connection.connect_begun` — a session over a quiet link begins by waiting;
* `Connection.Waits.deliver` — what a few bytes come to;
* `Connection.Waits.deliver_handled` — if nothing ends the session, the reader waits again;
* `Connection.Waits.close` — what the end of the stream comes to, if nothing was said.
-/

namespace LightPeer

/-- The store of a reader that has received bytes, when `rest` is left of all it held. -/
def Intake.left (i : Intake) (bs rest : Bytes) : Intake :=
  ({ i with held := rest, gap := i.gap + ((i.held ++ bs).length - rest.length) } : Intake).reserve
    (Frame.missing rest)

/-- What is held behind the messages of a portion is what was left of it. -/
theorem Intake.held_left (i : Intake) (bs rest : Bytes) : (i.left bs rest).held = rest :=
  held_reserve _ _

theorem Intake.receive_eq {i : Intake} {magic bs rest : Bytes} {ms : List Message}
    {fault : Option Frame.Error} (h : Frame.drain magic (i.held ++ bs) = ⟨ms, fault, rest⟩) :
    i.receive magic bs = ⟨ms, fault, i.left bs rest⟩ := by
  rw [Intake.receive, h]
  rfl

namespace Connection

variable {c c' first : Connection} {link : Link} {intake : Intake} {bs rest : Bytes}
  {ms : List Message}
  {fault : Option Frame.Error}

/-- The state in which a session over a link begins, when the peer has been greeted. -/
def begun (first : Connection) (link : Link) : Connection :=
  ((first.claimed default).start default link 0).1

/-- The reader waits for more bytes, of which the link is not going to hold any back. -/
structure Waits (intake : Intake) (c : Connection) : Prop where
  task : c.task = .reading intake
  running : c.signals.stopping = false
  inbound : c.link.inbound = []
  ending : c.link.ending = none
  readLimit : c.link.readLimit = 0

/-- The reader waits for the first bytes of a session. -/
abbrev Fresh (c : Connection) : Prop := c.Waits {}

/-- Without bytes the reader does nothing. -/
theorem readFrom_nil (c : Connection) : c.readFrom [] = c := by
  rw [readFrom]
  split <;> rfl

/-- A reader without bytes waits for them, and the connection is left as it was. -/
theorem Waits.settle_eq (h : c.Waits intake) : c.settle = c := by
  have hresume : c.resume = c := by rw [resume, h.task]
  rw [settle_of_running h.running, hresume, read, h.inbound, readFrom_nil]
  exact readEnding_eq_self fun _ _ => h.ending

/-- A session over a quiet link begins by waiting, since nothing has come from the peer that could
be handled. -/
theorem connect_begun (hstage : first.session.stage = .disconnected)
    (hgreeted : ((first.claimed default).start default link 0).2 = .done)
    (hfresh : (first.begun link).Fresh) :
    first.connect default link 0 = (first.begun link, .done) := by
  have hclaim : first.claim default = .ok (first.claimed default) := by
    rw [claim, Session.isConnected, hstage]
    rfl
  rw [connect, hclaim]
  exact Prod.ext hfresh.settle_eq hgreeted

/-- **A few bytes are handled at once.**  If there is room for all of them, the reader takes them in
one portion, the messages in it are handled, and what is left is held. -/
theorem Waits.deliver (h : c.Waits intake)
    (hread : Frame.drain c.config.network.magic (intake.held ++ bs) = ⟨ms, fault, rest⟩)
    (hsome : bs ≠ []) (hroom : bs.length ≤ (intake.reserve 1).room) :
    c.deliver bs none = (c.proceed ⟨ms, fault, (intake.reserve 1).left bs rest⟩).readEnding := by
  have hintake : (intake.reserve 1).receive c.config.network.magic bs =
      ⟨ms, fault, (intake.reserve 1).left bs rest⟩ := by
    refine Intake.receive_eq ?_
    rw [Intake.held_reserve]
    exact hread
  let given : Connection := { c with link := c.link.receive bs none }
  have htask : given.task = .reading intake := h.task
  have hrunning : given.signals.stopping = false := h.running
  have hinbound : given.link.inbound = bs := by
    show c.link.inbound ++ bs = bs
    rw [h.inbound]
    rfl
  have hleave : given.leave [] = c := by
    obtain ⟨config, watched, policy, session, listeners, supply, link, writer, task, signals, dice,
      journal⟩ := c
    obtain ⟨inbound, ending, readLimit, outbound, room, failWrites, stallClose, closed⟩ := link
    cases h.inbound
    cases h.ending
    rfl
  have hresume : given.resume = given := by rw [resume, htask]
  have hportion : given.link.portion (intake.reserve 1).room = (intake.reserve 1).room := by
    have hlimit : given.link.readLimit = 0 := h.readLimit
    rw [Link.portion, hlimit]
    rfl
  show given.settle = _
  rw [settle_of_running hrunning, hresume, read, hinbound, readFrom, htask]
  simp only [dif_neg hsome, hportion, List.drop_of_length_le hroom, List.take_of_length_le hroom,
    readFrom_nil, hleave]
  exact congrArg (fun received => (c.proceed received).readEnding) hintake

/-- The first bytes of a session find an empty store. -/
theorem Waits.deliver_first (h : c.Fresh)
    (hread : Frame.drain c.config.network.magic bs = ⟨ms, fault, rest⟩) (hsome : bs ≠ [])
    (hfew : bs.length ≤ 8192) :
    ∃ intake, intake.held = rest ∧
      c.deliver bs none = (c.proceed ⟨ms, fault, intake⟩).readEnding :=
  ⟨_, Intake.held_left .., Waits.deliver h hread hsome hfew⟩

/-- If all the messages in a few bytes are handled, the reader waits for more. -/
theorem Waits.deliver_handled (h : c.Waits intake)
    (hread : Frame.drain c.config.network.magic (intake.held ++ bs) = ⟨ms, none, rest⟩)
    (hsome : bs ≠ []) (hroom : bs.length ≤ (intake.reserve 1).room)
    (hhandled : dispatch ms c = (c', .handled)) (hending : c'.link.ending = none) :
    c.deliver bs none = { c' with task := .reading ((intake.reserve 1).left bs rest) } := by
  rw [h.deliver hread hsome hroom, proceed, hhandled]
  exact readEnding_eq_self fun _ _ => hending

/-- The end of the stream ends a session in which nothing was said. -/
theorem Waits.close (h : c.Fresh) :
    c.deliver [] (some .closed) =
      ({ c with link := { c.link with ending := some .closed } } : Connection).conclude := by
  have hlink : c.link.receive [] (some .closed) = { c.link with ending := some .closed } := by
    rw [Link.receive, List.append_nil, h.ending]
    rfl
  let given : Connection := { c with link := { c.link with ending := some .closed } }
  have htask : given.task = .reading {} := h.task
  have hrunning : given.signals.stopping = false := h.running
  have hinbound : given.link.inbound = [] := h.inbound
  have hresume : given.resume = given := by rw [resume, htask]
  have hnext (magic : Bytes) : Frame.nextAtEnd magic [] = .incomplete [] := by
    rw [Frame.nextAtEnd, Frame.next]
    rfl
  rw [Connection.deliver, hlink]
  show given.settle = given.conclude
  rw [settle_of_running hrunning, hresume, read, hinbound, readFrom_nil, readEnding, htask]
  simp only [given, hnext]

end Connection

end LightPeer
