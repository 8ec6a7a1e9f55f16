import LightPeer.Proofs.Session.Acts

/-!
# The life of a connection

The milestones in the life of a connection are the stages that it enters and the events that
its listeners are told.  Whatever is done with it, they form a row of sessions, each of which
has run its course, and at most one that is still in progress.  A session whose link could
not be opened leaves no event.  Any other begins with one `connected` and ends with one
`disconnected`, whichever way it ends, and between these stands what the peer confirmed.

The invariant is `Duty.Shows`: what stands in the journal of the session in progress depends
on the duty of the side that reads, and each step adds to it or closes the session.

* `Step.orderly` — how stages follow on each other, and when messages are sent;
* `Step.courses` — a step keeps the row of sessions;
* `Act.rests` — without a session nothing is written;
* `after_lawful` — all of this, for every row of acts.
-/

namespace LightPeer

/-- A stage that is entered, or an event of the session that listeners are told. -/
inductive Milestone
  | entered (stage : Stage)
  | told (event : SessionEvent)

/-- The milestone of an entry. -/
def Entry.milestone? : Entry → Option Milestone
  | .entered stage => some (.entered stage)
  | .emitted (.connection event) => some (.told event)
  | _ => none

/-- The milestones of a journal. -/
def milestones (journal : List Entry) : List Milestone := journal.filterMap Entry.milestone?

/-- How far a session has come whose link is open. -/
inductive Reach
  | greeting
  /-- The peer is greeted, and it has confirmed the handshake so many times. -/
  | talking (confirmed : Nat)

/-- The stage of a session that has come so far. -/
def Reach.stage : Reach → Stage
  | .greeting => .connecting
  | .talking 0 => .awaitingVerack
  | .talking (_ + 1) => .ready

/-- The milestones of a session that has come so far. -/
def Reach.milestones : Reach → List Milestone
  | .greeting => [.entered .connecting, .told .connected]
  | .talking confirmed =>
    [.entered .connecting, .told .connected, .entered .awaitingVerack] ++
      (List.replicate confirmed [.entered .ready, .told .verack]).flatten

/-- The course of a session that is over. -/
inductive Course
  /-- Its link could not be opened. -/
  | unopened
  | opened (reach : Reach)

/-- The milestones of a session that is over. -/
def Course.milestones : Course → List Milestone
  | .unopened => [.entered .connecting, .entered .disconnected]
  | .opened reach => reach.milestones ++ [.entered .disconnected, .told .disconnected]

/-- An entry adds its milestone, if it is one. -/
theorem milestones_snoc (journal : List Entry) (entry : Entry) :
    milestones (journal ++ [entry]) = milestones journal ++ entry.milestone?.toList := by
  rw [milestones, List.filterMap_append]
  cases h : entry.milestone? <;> simp [h, milestones]

/-- An aside is no milestone, and so listeners that look or speak cannot bring one about. -/
theorem milestones_asides {journal entries : List Entry} {stage : Stage}
    (h : ∀ entry ∈ entries, entry.IsAside stage) :
    milestones (journal ++ entries) = milestones journal := by
  have hnone : entries.filterMap Entry.milestone? = [] := by
    rw [List.filterMap_eq_nil_iff]
    intro entry hentry
    have haside := h entry hentry
    cases entry <;> first | rfl | cases haside
  rw [milestones, List.filterMap_append, hnone, List.append_nil, milestones]

/-- Every further confirmation of the peer is a milestone like the first. -/
theorem Reach.milestones_talking_succ (confirmed : Nat) :
    (Reach.talking (confirmed + 1)).milestones =
      (Reach.talking confirmed).milestones ++ [.entered .ready, .told .verack] := by
  rw [milestones, milestones, List.replicate_succ', List.flatten_append, List.append_assoc]
  rfl

/-- A session whose link is just open has not come further than that. -/
theorem Reach.eq_greeting {reach : Reach} (h : reach.stage = .connecting) : reach = .greeting := by
  rcases reach with _ | _ | _ <;> first | rfl | cases h

/-- A session in which messages are exchanged has been confirmed some number of times. -/
theorem Reach.exists_talking {reach : Reach}
    (h : reach.stage = .awaitingVerack ∨ reach.stage = .ready) :
    ∃ confirmed, reach = .talking confirmed := by
  cases reach with
  | greeting => rcases h with h | h <;> cases h
  | talking confirmed => exact ⟨confirmed, rfl⟩

/-- What listeners are told of a message is no event of the session. -/
theorem milestone?_report {m : Message} {event : Event} (h : m.report? = some event) :
    (Entry.emitted event).milestone? = none := by
  cases m with
  | tx t =>
    cases h
    rfl
  | block b =>
    cases h
    rfl
  | merkleBlock b =>
    rw [Message.report?] at h
    split at h
    · cases h
      rfl
    · cases h
  | _ => cases h

/-- The moves of a session from stage to stage. -/
inductive Stage.Moves : Stage → Stage → Prop
  | claims : Moves .disconnected .connecting
  | greets : Moves .connecting .awaitingVerack
  | confirms : Moves .awaitingVerack .ready
  | ends {stage : Stage} (h : stage ≠ .disconnected) : Moves stage .disconnected

/-- What may be written behind the entries `before`: a stage that the session moves to, if it
is not the same, and messages while there is a session.  Listeners are shown the stage. -/
def Orderly (before : List Entry) : Entry → Prop
  | .entered stage => stage = stageAfter before ∨ (stageAfter before).Moves stage
  | .sent _ => stageAfter before ≠ .disconnected
  | .called _ shown _ => shown = stageAfter before
  | _ => True

variable {allowed : Outgoing → Prop} {d d' : Duty} {c c' : Connection}

/-- There is a writer only while there is a session. -/
theorem Duty.Fits.writer_stage (h : d.Fits c) (hwriter : c.writer.isSome) :
    c.session.stage ≠ .disconnected := by
  intro hgone
  cases d <;> simp_all [Fits]

/-- An aside moves no session and sends no message, and so it may come at any time. -/
theorem Orderly.aside (before : List Entry) (entry : Entry)
    (h : entry.IsAside (stageAfter before)) : Orderly before entry := by
  cases entry <;> first | exact h | trivial

/-- **Stages follow on each other, and messages are sent in sessions only.** -/
theorem Step.orderly (h : Step allowed (d, c) (d', c')) (hfits : d.Fits c)
    (hstage : stageAfter c.journal = c.session.stage) (hkept : Keeps Orderly c.journal) :
    Keeps Orderly c'.journal := by
  cases h with
  | aside haside =>
    obtain ⟨entries, hentries, hasides⟩ := haside.journal
    rw [hentries]
    exact hkept.asides hstage hasides Orderly.aside
  | claims peer hgone =>
    refine hkept.snoc (.inr ?_)
    rw [hstage, hgone]
    exact .claims
  | fails =>
    refine hkept.snoc (.inr (.ends ?_))
    rw [hstage, hfits.1]
    nofun
  | opens => exact hkept.snoc trivial
  | begins =>
    refine hkept.snoc (.inr ?_)
    rw [hstage, hfits.1]
    exact .greets
  | introduces v =>
    refine hkept.snoc ?_
    rw [Orderly, hstage]
    exact hfits.writer_stage hfits.2.1
  | hears m =>
    have hheard : Keeps Orderly (c.record (.received m)).journal := hkept.snoc trivial
    cases m with
    | verack =>
      have hready : Keeps Orderly ((c.record (.received .verack)).enter .ready).journal := by
        refine hheard.snoc ?_
        have hsame : stageAfter (c.record (.received .verack)).journal = c.session.stage :=
          (stageAfter_snoc ..).trans hstage
        rw [Orderly, hsame]
        rcases hfits.1 with hawaiting | hready
        · rw [hawaiting]
          exact .inr .confirms
        · exact .inl hready.symm
      exact hready.snoc trivial
    | _ => exact hheard
  | tells hreport => exact hkept.snoc trivial
  | abandons => exact hkept.snoc trivial
  | @finishes c loading => cases loading <;> exact hkept
  | ends =>
    refine Keeps.snoc (hkept.snoc (.inr (.ends ?_))) trivial
    rw [hstage]
    exact hfits.1
  | hands hwriter | orders _ _ hwriter | loads _ _ hwriter =>
    refine hkept.snoc ?_
    rw [Orderly, hstage]
    exact hfits.writer_stage hwriter
  | leaves | strands | passes | answers | hangsUp | asks => exact hkept

/-- What stands in the journal of the session in progress, if the duty of its reader is so. -/
def Duty.Shows (stage : Stage) (now : List Milestone) : Duty → Prop
  | .dialling => now = [.entered .connecting]
  | _ => stage = .disconnected ∧ now = [] ∨
      ∃ reach : Reach, reach.stage = stage ∧ now = reach.milestones

/-- A journal is made of sessions that are over, and of what stands there of one in progress. -/
def Coursed (d : Duty) (c : Connection) : Prop :=
  ∃ (past : List Course) (now : List Milestone),
    milestones c.journal = past.flatMap Course.milestones ++ now ∧ d.Shows c.session.stage now

/-- Between two acts no link is being opened. -/
theorem Duty.Shows.of_task {task : Task} {stage : Stage} {now : List Milestone}
    (h : task.duty.Shows stage now) :
    stage = .disconnected ∧ now = [] ∨
      ∃ reach : Reach, reach.stage = stage ∧ now = reach.milestones := by
  cases task <;> exact h

/-- One more entry belongs to the session in progress, and adds its milestone there if it is one. -/
theorem milestones_behind {journal : List Entry} {past : List Course} {now : List Milestone}
    (h : milestones journal = past.flatMap Course.milestones ++ now) (entry : Entry) :
    milestones (journal ++ [entry]) =
      past.flatMap Course.milestones ++ (now ++ entry.milestone?.toList) := by
  rw [milestones_snoc, h, List.append_assoc]

/-- Nothing of importance is written, and the reader may turn to something else that the stage
allows. -/
theorem Coursed.keep (h : Coursed d c) (hjournal : milestones c'.journal = milestones c.journal)
    (hshows : ∀ now, d.Shows c.session.stage now → d'.Shows c'.session.stage now) :
    Coursed d' c' := by
  obtain ⟨past, now, hmilestones, hnow⟩ := h
  exact ⟨past, now, hjournal.trans hmilestones, hshows now hnow⟩

/-- A session that is over is one more of those that are past. -/
theorem Coursed.close (past : List Course) (course : Course)
    (hjournal : milestones c.journal = past.flatMap Course.milestones ++ course.milestones)
    (hstage : c.session.stage = .disconnected) : Coursed .idle c := by
  refine ⟨past ++ [course], [], ?_, .inl ⟨hstage, rfl⟩⟩
  rw [hjournal, List.flatMap_append, List.flatMap_singleton, List.append_nil]

/-- What is told to listeners of messages is no event of the session. -/
theorem milestones_record {entry : Entry} (h : entry.milestone? = none) (c : Connection) :
    milestones (c.record entry).journal = milestones c.journal := by
  rw [Connection.record, milestones_snoc, h]
  exact List.append_nil _

/-- To take up a message leaves the course of the session as it is, except that a confirmation takes
it further. -/
theorem Coursed.hears (m : Message) (hfits : Duty.working.Fits c) (h : Coursed .working c) :
    Coursed (.handling m) (c.heed m) := by
  have hheard : milestones (c.record (.received m)).journal = milestones c.journal :=
    milestones_record rfl c
  cases m with
  | verack =>
    obtain ⟨past, now, hmilestones, ⟨hgone, _⟩ | ⟨reach, hreach, rfl⟩⟩ := h
    · rcases hfits.1 with hstage | hstage <;> rw [hstage] at hgone <;> cases hgone
    · have htalking : reach.stage = .awaitingVerack ∨ reach.stage = .ready := by
        rw [hreach]
        exact hfits.1
      obtain ⟨confirmed, rfl⟩ := Reach.exists_talking htalking
      have hready := milestones_behind (milestones_behind (hheard.trans hmilestones)
        (.entered .ready)) (.emitted (.connection .verack))
      refine ⟨past, (Reach.talking (confirmed + 1)).milestones, hready.trans ?_,
        .inr ⟨_, rfl, rfl⟩⟩
      rw [Reach.milestones_talking_succ, List.append_assoc]
      rfl
  | _ => exact h.keep hheard fun _ => id

/-- **A step keeps the row of sessions**:  it adds to the last one at most, or begins another behind
it. -/
theorem Step.courses (h : Step allowed (d, c) (d', c')) (hfits : d.Fits c)
    (hcoursed : Coursed d c) : Coursed d' c' := by
  cases h with
  | aside haside =>
    obtain ⟨entries, hentries, hasides⟩ := haside.journal
    refine hcoursed.keep ?_ ?_
    · rw [hentries, milestones_asides hasides]
    · rw [haside.session]
      exact fun _ => id
  | claims peer hgone =>
    obtain ⟨past, now, hmilestones, ⟨_, rfl⟩ | ⟨reach, hreach, _⟩⟩ := hcoursed
    · exact ⟨past, [.entered .connecting], milestones_behind hmilestones _, rfl⟩
    · rw [hgone] at hreach
      rcases reach with _ | _ | _ <;> cases hreach
  | fails =>
    obtain ⟨past, now, hmilestones, rfl⟩ := hcoursed
    exact Coursed.close past .unopened (milestones_behind hmilestones _) rfl
  | opens =>
    obtain ⟨past, now, hmilestones, rfl⟩ := hcoursed
    exact ⟨past, Reach.greeting.milestones, milestones_behind hmilestones _,
      .inr ⟨.greeting, hfits.1.symm, rfl⟩⟩
  | begins =>
    obtain ⟨past, now, hmilestones, ⟨hgone, _⟩ | ⟨reach, hreach, rfl⟩⟩ := hcoursed
    · rw [hfits.1] at hgone
      cases hgone
    · obtain rfl := Reach.eq_greeting (hreach.trans hfits.1)
      exact ⟨past, (Reach.talking 0).milestones, milestones_behind hmilestones _,
        .inr ⟨.talking 0, rfl, rfl⟩⟩
  | hears m => exact hcoursed.hears m hfits
  | tells hreport =>
    exact hcoursed.keep (milestones_record (milestone?_report hreport) c) fun _ => id
  | @finishes c loading => cases loading <;> exact hcoursed
  | hangsUp hlive =>
    cases d with
    | dialling => cases hlive
    | _ => exact hcoursed
  | abandons peer cause hlive =>
    refine hcoursed.keep (milestones_record rfl c) ?_
    cases d with
    | dialling => cases hlive
    | _ => exact fun _ => id
  | ends =>
    obtain ⟨past, now, hmilestones, ⟨hgone, _⟩ | ⟨reach, hreach, rfl⟩⟩ := hcoursed
    · exact absurd hgone hfits.1
    · have hgone := milestones_behind (milestones_behind hmilestones (.entered .disconnected))
        (.emitted (.connection .disconnected))
      refine Coursed.close past (.opened reach) (hgone.trans ?_) rfl
      rw [List.append_assoc]
      rfl
  | introduces | hands | orders | loads =>
    exact hcoursed.keep (milestones_record rfl c) fun _ => id
  | leaves | strands | passes | answers => exact hcoursed
  | asks hidle =>
    obtain ⟨past, now, hmilestones, hshows⟩ := hcoursed
    exact ⟨past, now, hmilestones, hshows⟩

/-- In this session something has gone wrong, for which it is given up. -/
def GivenUp (journal : List Entry) : Prop :=
  ∃ entry ∈ thisSession journal, entry.givesUp = true

/-- A session that goes on has not been given up by an entry that is no such report. -/
theorem givenUp_snoc {journal : List Entry} {entry : Entry} (hbegins : entry.begins = false)
    (hother : entry.givesUp = false) : GivenUp (journal ++ [entry]) ↔ GivenUp journal := by
  rw [GivenUp, GivenUp, thisSession_snoc, hbegins]
  simp [hother]

/-- An aside gives nothing up, for only a reader that has failed says that a session was given
up. -/
theorem givenUp_asides {journal entries : List Entry} {stage : Stage}
    (h : ∀ entry ∈ entries, entry.IsAside stage) :
    GivenUp (journal ++ entries) ↔ GivenUp journal := by
  rw [GivenUp, GivenUp, thisSession_asides h]
  constructor
  · rintro ⟨entry, hentry, hgives⟩
    rcases List.mem_append.mp hentry with hold | hnew
    · exact ⟨entry, hold, hgives⟩
    · rw [(h entry hnew).givesUp] at hgives
      cases hgives
  · rintro ⟨entry, hentry, hgives⟩
    exact ⟨entry, List.mem_append_left _ hentry, hgives⟩

/-- Nor does a message that is taken up, until it has been handled. -/
theorem givenUp_heed (m : Message) (c : Connection) :
    GivenUp (c.heed m).journal ↔ GivenUp c.journal := by
  have hheard : GivenUp (c.record (.received m)).journal ↔ GivenUp c.journal :=
    givenUp_snoc rfl rfl
  cases m with
  | verack =>
    have hready : GivenUp ((c.record (.received .verack)).enter .ready).journal ↔
        GivenUp (c.record (.received .verack)).journal := givenUp_snoc rfl rfl
    exact (givenUp_snoc rfl rfl).trans (hready.trans hheard)
  | _ => exact hheard

/-- A session that is given up is over, or its link is being closed. -/
def Duty.Yields (c : Connection) (d : Duty) : Prop :=
  GivenUp c.journal → d = .closing ∨ d = .idle ∧ c.session.stage = .disconnected

/-- **Who gives a session up does nothing more in it than to close the link.** -/
theorem Step.yields (h : Step allowed (d, c) (d', c')) (hyields : d.Yields c) : d'.Yields c' := by
  intro hgiven
  cases h with
  | aside haside =>
    obtain ⟨entries, hentries, hasides⟩ := haside.journal
    rw [hentries, givenUp_asides hasides] at hgiven
    rw [haside.session]
    exact hyields hgiven
  | claims peer hgone =>
    obtain ⟨entry, hentry, _⟩ := hgiven
    have hnothing : thisSession (c.claimed peer).journal = [] := thisSession_snoc ..
    rw [hnothing] at hentry
    cases hentry
  | hears m =>
    rcases hyields ((givenUp_heed m c).mp hgiven) with hd | ⟨hd, _⟩ <;> cases hd
  | hangsUp hlive => exact .inl rfl
  | abandons peer cause hlive => exact .inl rfl
  | ends => exact .inr ⟨rfl, rfl⟩
  | asks hidle => exact hyields hgiven
  | orders | loads => exact hyields ((givenUp_snoc rfl rfl).mp hgiven)
  | @finishes c loading =>
    cases loading <;> rcases hyields hgiven with hd | ⟨hd, _⟩ <;> cases hd
  | leaves | strands | passes | answers =>
    rcases hyields hgiven with hd | ⟨hd, _⟩ <;> cases hd
  | fails | opens | introduces | begins | tells | hands =>
    rcases hyields ((givenUp_snoc rfl rfl).mp hgiven) with hd | ⟨hd, _⟩ <;> cases hd

/-- Whether an act opens a link. -/
def Act.opens : Act → Bool
  | .connect .. => true
  | _ => false

namespace Connection

/-- A link that could not be opened leaves a report, and no event. -/
theorem dialFailed_journal (hstage : c.session.stage = .disconnected) (peer : Endpoint)
    (text : String) :
    (c.dialFailed peer text).1.journal = c.journal ++ [.entered .connecting,
      .noticed (.dialFailed peer text), .entered .disconnected] := by
  rw [dialFailed_of_disconnected peer text hstage]
  show ((c.journal ++ [_]) ++ [_]) ++ [_] = _
  rw [List.append_assoc, List.append_assoc]
  rfl

/-- There is no session, and nobody reads or writes. -/
structure AtRest (c : Connection) : Prop where
  stage : c.session.stage = .disconnected
  writer : c.writer = none
  duty : c.task.duty = .idle

/-- The connection is still at rest, and no message has been sent. -/
structure Rests (c c' : Connection) : Prop where
  rest : c'.AtRest
  journal : ∃ added, c'.journal = c.journal ++ added ∧ ∀ m, Entry.sent m ∉ added

/-- **Where there is no session nobody reads or writes.**  This is what duty, stage and writer have
been fitted to each other for. -/
theorem atRest_of_fits (h : c.task.duty.Fits c) (hstage : c.session.stage = .disconnected) :
    c.AtRest := by
  have hidle := idle_of_disconnected h hstage
  rw [hidle] at h
  rcases h with ⟨_, hwriter⟩ | hconnecting
  · exact ⟨hstage, hwriter, hidle⟩
  · rw [hstage] at hconnecting
    cases hconnecting

/-- An aside wakes nobody, for what listeners can do does not reach a session that is over. -/
theorem AtRest.rests (h : c.AtRest) (haside : c.Aside c') (hduty : c'.task.duty = .idle) :
    c.Rests c' := by
  obtain ⟨added, hadded, hasides⟩ := haside.journal
  refine ⟨⟨?_, ?_, hduty⟩, added, hadded, fun m hm => hasides _ hm⟩
  · rw [haside.session]
    exact h.stage
  · have hnone := haside.writer
    rw [h.writer] at hnone
    simpa using hnone

theorem AtRest.refl (h : c.AtRest) : c.Rests c := h.rests (.refl c) h.duty

/-- Without a writer nothing is sent, and the caller is told that there is no connection. -/
theorem transmit_of_none (h : c.writer = none) (m : Outgoing) :
    c.transmit m = (c, .failed .notConnected) := by
  simp [transmit, push, h, highWater]

/-- Without a session a message is refused, and nothing comes of it. -/
theorem AtRest.send (h : c.AtRest) (m : Outgoing) : c.send m = (c, .failed .notConnected) := by
  have hfree : c.isReplying = false := by
    rw [← isWaiting_duty, h.duty]
    rfl
  rw [Connection.send, hfree]
  exact transmit_of_none h.writer m

/-- Nobody has ever read, or the reader has seen the end of its session. -/
theorem AtRest.task (h : c.AtRest) : c.task = .none ∨ c.task = .finished := by
  have hduty := h.duty
  cases htask : c.task with
  | none => exact .inl rfl
  | finished => exact .inr rfl
  | _ =>
    rw [htask] at hduty
    cases hduty

/-- Nothing is done without the peer either, since a reader that has ended does not go on by
itself. -/
theorem AtRest.settle (h : c.AtRest) : c.settle = c := by
  refine settle_eq_self ?_
  rcases h.task with htask | htask <;> rw [htask] <;> rfl

/-- A link that cannot be opened leaves the connection at rest. -/
theorem AtRest.dialFailed (h : c.AtRest) (peer : Endpoint) (text : String) :
    c.Rests (c.dialFailed peer text).1 := by
  refine ⟨?_, _, dialFailed_journal h.stage peer text, ?_⟩
  · rw [dialFailed_of_disconnected peer text h.stage]
    exact ⟨rfl, h.writer, h.duty⟩
  · intro m hm
    simp at hm

/-- An owner who ends a session that is over has the last word, and no more. -/
theorem AtRest.disconnect (h : c.AtRest) : c.Rests c.disconnect.1 := by
  unfold Connection.disconnect
  rcases h.task with htask | htask
  · rw [htask]
    exact h.refl
  · rw [htask]
    exact ⟨⟨h.stage, h.writer, rfl⟩, [], (List.append_nil _).symm, nofun⟩

end Connection

open Connection

/-- **Without a session nothing is written, until a link is opened.** -/
theorem Act.rests {act : Act} (h : c.AtRest) (hopens : act.opens = false) :
    c.Rests (act.apply c) := by
  cases act with
  | connect peer link now => cases hopens
  | dialFailed peer text => exact h.dialFailed peer text
  | disconnect => exact h.disconnect
  | turn turn =>
    have hlinked (link : Link) : c.Rests ({ c with link } : Connection).settle := by
      have hrest : ({ c with link } : Connection).AtRest := ⟨h.stage, h.writer, h.duty⟩
      rw [hrest.settle]
      exact h.rests (link_aside link c) h.duty
    cases turn with
    | deliver bytes ending => exact hlinked _
    | relink change => exact hlinked _
    | send m =>
      show c.Rests (c.send m).1
      rw [h.send m]
      exact h.refl
    | loadFilter =>
      have htakes : ¬ c.TakesFilter := by
        intro htakes
        cases h.stage.symm.trans htakes.stage
      have hrefused : c.loadFilter.1 = c := by
        obtain ⟨cause, hrefused⟩ := transmitFilter_refused htakes
        rw [loadFilter, hrefused]
        split <;> rfl
      show c.Rests c.loadFilter.1
      rw [hrefused]
      exact h.refl
    | watch addresses =>
      have htask : (c.watch addresses).1.task = c.task := (c.watch_undisturbed addresses).task
      exact h.rests (watch_aside addresses c) ((congrArg Task.duty htask).trans h.duty)
    | tune policy => exact h.rests (setPolicy_aside policy c) h.duty
    | listen kind listener => exact h.rests (listen_aside kind listener c) h.duty
    | remove id => exact h.rests (removeListener_aside id c) h.duty

/-- Without a session nothing is written in any row of acts that opens no link. -/
theorem after_rests {acts : List Act} (h : c.AtRest) (hopens : ∀ act ∈ acts, act.opens = false) :
    c.Rests (c.after acts) := by
  induction acts generalizing c with
  | nil => exact h.refl
  | cons act acts ih =>
    have hact := Act.rests h (hopens act List.mem_cons_self)
    have hacts := ih hact.rest fun act hact => hopens act (List.mem_cons_of_mem _ hact)
    obtain ⟨added, hadded, hsilent⟩ := hact.journal
    obtain ⟨added', hadded', hsilent'⟩ := hacts.journal
    refine ⟨hacts.rest, added ++ added', ?_, ?_⟩
    · show ((act.apply c).after acts).journal = _
      rw [hadded', hadded, List.append_assoc]
    · intro m hm
      rcases List.mem_append.mp hm with hbefore | hafter
      · exact hsilent m hbefore
      · exact hsilent' m hafter

/-- What holds of a connection at every moment of its life. -/
structure Connection.Lawful (c : Connection) : Prop where
  /-- The journal is made of sessions that are over, and of one in progress if there is one. -/
  courses : ∃ (past : List Course) (now : List Milestone),
    milestones c.journal = past.flatMap Course.milestones ++ now ∧
      (c.session.stage = .disconnected ∧ now = [] ∨
        ∃ reach : Reach, reach.stage = c.session.stage ∧ now = reach.milestones)
  /-- The stage has moved in its order from the first one to the present one, and messages were
  sent while there was a session. -/
  orderly : Keeps Orderly c.journal
  stage : stageAfter c.journal = c.session.stage
  writer : c.writer.isSome → c.session.stage ≠ .disconnected
  /-- A session that is begun comes into the journal at once. -/
  opening : c.session.stage = .disconnected → ∀ peer link now,
    c.journal ++ [.entered .connecting, .emitted (.connection .connected)] <+:
      (c.connect peer link now).1.journal
  /-- A link that cannot be opened is reported, and no listener is told. -/
  failing : c.session.stage = .disconnected → ∀ peer text,
    (c.dialFailed peer text).2 = .failed (.io text) ∧
      (c.dialFailed peer text).1.session.stage = .disconnected ∧
      (c.dialFailed peer text).1.journal = c.journal ++ [.entered .connecting,
        .noticed (.dialFailed peer text), .entered .disconnected]
  /-- Who begins a session, reads in it and ends it agree on how far it has come. -/
  fits : c.task.duty.Fits c
  /-- An owner who ends a session in which the peer was greeted sees it ended. -/
  leaving : c.session.stage = .awaitingVerack ∨ c.session.stage = .ready →
    c.disconnect.2 = .done ∧ c.disconnect.1.session.stage = .disconnected ∧
      c.disconnect.1.writer = none
  /-- A session in which a message could not be handled, in which the bytes were no messages, or
  which the peer broke off, is over, unless its link is still being closed. -/
  abandoning : (∃ peer cause, .noticed (.sessionFailed peer cause) ∈ thisSession c.journal) →
    c.session.stage = .disconnected ∨ c.task.duty = .closing
  /-- Nobody waits for more from a peer that has ended the stream. -/
  ending : c.link.ending.isSome → c.task.duty ≠ .working
  /-- Whenever an event of the session happens, all listeners that are registered for it then are
  called, each once and in order. -/
  telling : ∀ event, ∃ added,
    (emit .connection event c).journal = c.journal ++ .emitted (.connection event) :: added ∧
      calls added = c.listeners.connection.ids.map fun id => (id, .connection event)
  /-- No session is begun while there is one. -/
  refusing : c.session.stage ≠ .disconnected → ∀ peer,
    (∀ link now, c.connect peer link now = (c, .failed .alreadyConnected)) ∧
      ∀ text, c.dialFailed peer text = (c, .failed .alreadyConnected)
  /-- Without a session every message is refused and none is written, until one is begun. -/
  resting : c.session.stage = .disconnected → ∀ acts, (∀ act ∈ acts, act.opens = false) →
    (c.after acts).session.stage = .disconnected ∧ (c.after acts).writer = none ∧
      (∀ m, (c.after acts).send m = (c.after acts, .failed .notConnected)) ∧
      ∃ added, (c.after acts).journal = c.journal ++ added ∧ ∀ m, Entry.sent m ∉ added

/-- Whatever the peer has sent by then, the first entries of a session are that it begins and that
this is told. -/
theorem opening_journal (h : c.task.duty.Fits c) (hstage : c.session.stage = .disconnected)
    (peer : Endpoint) (link : Link) (now : Int64) :
    c.journal ++ [.entered .connecting, .emitted (.connection .connected)] <+:
      (c.connect peer link now).1.journal := by
  have hsteps : Steps (fun _ => True) _ _ := connect_opened peer link now h hstage
  have hgrows := hsteps.journal_extends
  have hopened : (c.claimed peer).opened.journal =
      c.journal ++ [.entered .connecting, .emitted (.connection .connected)] :=
    List.append_assoc ..
  rw [hopened] at hgrows
  exact hgrows

namespace Connection

/-- When the owner has ended the session, nobody reads any more. -/
theorem disconnect_task (c : Connection) : c.disconnect.1.task = .none := by
  unfold disconnect
  split
  · next htask => exact htask
  · rfl
  · split <;> rfl
  · split <;> split <;> rfl

/-- Whoever reads is there when the owner ends the session. -/
theorem disconnect_greeted (h : c.task.duty.Fits c)
    (hstage : c.session.stage = .awaitingVerack ∨ c.session.stage = .ready) :
    c.disconnect.2 = .done ∧ c.disconnect.1.session.stage = .disconnected ∧
      c.disconnect.1.writer = none := by
  have hthere (hidle : c.task.duty = .idle) : False := by
    rw [hidle] at h
    rcases h with ⟨hgone, _⟩ | hgone <;> rw [hgone] at hstage <;> simp at hstage
  have hended : c.disconnect.2 = .done ∧ c.disconnect.1.session.stage = .disconnected := by
    unfold disconnect
    split
    · next htask => exact absurd (congrArg Task.duty htask) hthere
    · next htask => exact absurd (congrArg Task.duty htask) hthere
    · split <;> exact ⟨rfl, stage_endSession _⟩
    · next hnone hfinished hclosing =>
      have hbell : c.signals.bell = true := by
        rw [(reading_of_fits h hnone hfinished hclosing).2, Signals.reading]
      rw [if_pos hbell]
      split <;> exact ⟨rfl, stage_endSession _⟩
  have hsteps : Steps (fun _ => True) _ _ := disconnect_steps h
  exact ⟨hended.1, hended.2, (atRest_of_fits (hsteps.fits h) hended.2).writer⟩

/-- Nobody waits for more when there is no more to come. -/
def SeesEnd (c : Connection) : Prop := c.link.ending.isSome → c.task.duty ≠ .working

/-- To be seen are the task of the reader and the end of the stream, and nothing else. -/
theorem SeesEnd.of_same (h : c.SeesEnd) (htask : c'.task = c.task)
    (hending : c'.link.ending = c.link.ending) : c'.SeesEnd := by
  rw [SeesEnd, htask, hending]
  exact h

/-- A reader that ends the session does not wait for more. -/
theorem conclude_duty (c : Connection) : c.conclude.task.duty ≠ .working := by
  unfold conclude
  split <;> nofun

/-- A reader that has come to the last byte looks whether the stream has ended, and if so it ends
the session. -/
theorem readEnding_seesEnd (c : Connection) : c.readEnding.SeesEnd := by
  unfold readEnding
  split
  · exact fun _ => conclude_duty _
  · split
    · exact fun _ => conclude_duty _
    · exact fun _ => conclude_duty c
  · next hfailed hclosed =>
    intro hending hduty
    cases htask : c.task with
    | reading intake =>
      obtain ⟨ending, hsome⟩ := Option.isSome_iff_exists.mp hending
      cases ending with
      | closed => exact hclosed intake htask hsome
      | failed text => exact hfailed intake text htask hsome
    | _ =>
      rw [htask] at hduty
      cases hduty

/-- Whatever comes of it, nobody waits at the end of the stream. -/
theorem settle_seesEnd (c : Connection) : c.settle.SeesEnd := by
  unfold settle
  split
  · intro _
    unfold halt
    split
    · exact conclude_duty c
    · exact conclude_duty c
    · next hreading _ =>
      intro hduty
      cases htask : c.task with
      | reading intake => exact hreading intake htask
      | _ =>
        rw [htask] at hduty
        cases hduty
  · exact readEnding_seesEnd _

end Connection

/-- Each act either lets the reader go on until it can do no more, or leaves it and the stream
alone. -/
theorem Act.seesEnd {act : Act} (h : c.SeesEnd) : (act.apply c).SeesEnd := by
  cases act with
  | connect peer link now =>
    show (c.connect peer link now).1.SeesEnd
    by_cases hstage : c.session.stage = .disconnected
    · unfold Connection.connect
      rw [claim_of_disconnected hstage]
      exact settle_seesEnd _
    · rw [connect_refused peer link now hstage]
      exact h
  | dialFailed peer text =>
    show (c.dialFailed peer text).1.SeesEnd
    by_cases hstage : c.session.stage = .disconnected
    · rw [dialFailed_of_disconnected peer text hstage]
      exact h
    · rw [dialFailed_refused peer text hstage]
      exact h
  | disconnect =>
    intro _
    show c.disconnect.1.task.duty ≠ .working
    rw [disconnect_task]
    nofun
  | turn turn =>
    cases turn with
    | deliver bytes ending => exact settle_seesEnd _
    | relink change => exact settle_seesEnd _
    | send m => exact h.of_same (send_wrote m c).reader.task (send_wrote m c).reader.ending
    | loadFilter =>
      exact h.of_same (loadFilter_wrote c).reader.task (loadFilter_wrote c).reader.ending
    | watch addresses =>
      have hsame := c.watch_undisturbed addresses
      exact h.of_same hsame.task (congrArg Link.ending hsame.link)
    | tune policy => exact h
    | listen kind listener => exact h
    | remove id => exact h

/-- Between two acts nobody waits for more from a peer that has ended the stream. -/
theorem after_seesEnd (acts : List Act) (h : c.SeesEnd) : (c.after acts).SeesEnd := by
  induction acts generalizing c with
  | nil => exact h
  | cons act acts ih => exact ih (Act.seesEnd h)

/-- Where something has gone wrong in this session, it is over or is being closed. -/
theorem Duty.Yields.abandoned (h : c.task.duty.Yields c)
    (hfailed : ∃ peer cause, .noticed (.sessionFailed peer cause) ∈ thisSession c.journal) :
    c.session.stage = .disconnected ∨ c.task.duty = .closing := by
  obtain ⟨peer, cause, hentry⟩ := hfailed
  rcases h ⟨_, hentry, rfl⟩ with hclosing | ⟨_, hgone⟩
  · exact .inr hclosing
  · exact .inl hgone

/-- What every step keeps of the life of a connection. -/
structure Living (d : Duty) (c : Connection) : Prop where
  fits : d.Fits c
  stage : stageAfter c.journal = c.session.stage
  orderly : Keeps Orderly c.journal
  coursed : Coursed d c
  yields : d.Yields c

/-- **A step keeps the life of a connection in order.** -/
theorem Step.living (h : Step allowed (d, c) (d', c')) (hliving : Living d c) : Living d' c' :=
  ⟨h.fits hliving.fits, h.stageAfter_journal hliving.stage,
    h.orderly hliving.fits hliving.stage hliving.orderly, h.courses hliving.fits hliving.coursed,
    h.yields hliving.yields⟩

/-- **The life of a connection.**  Whatever is done with it, in whatever order. -/
theorem after_lawful (config : Config) (supply : IdSupply) (dice : Dice) (acts : List Act) :
    ((Connection.new config supply dice).after acts).Lawful := by
  have hnew : Living .idle (.new config supply dice) :=
    ⟨.inl ⟨rfl, rfl⟩, rfl, .nil Orderly, ⟨[], [], rfl, .inl ⟨rfl, rfl⟩⟩, nofun⟩
  have hliving := (new_after_steps config supply dice acts).keep Living Step.living hnew
  have hending := after_seesEnd acts (c := .new config supply dice) nofun
  generalize (Connection.new config supply dice).after acts = c at hliving hending
  have hrest (hstage : c.session.stage = .disconnected) : c.AtRest :=
    atRest_of_fits hliving.fits hstage
  refine ⟨?_, hliving.orderly, hliving.stage, hliving.fits.writer_stage,
    opening_journal hliving.fits, ?_, hliving.fits, disconnect_greeted hliving.fits,
    hliving.yields.abandoned, hending, ?_, ?_, ?_⟩
  · obtain ⟨past, now, hmilestones, hshows⟩ := hliving.coursed
    exact ⟨past, now, hmilestones, hshows.of_task⟩
  · intro hstage peer text
    refine ⟨?_, ?_, dialFailed_journal hstage peer text⟩
    · rw [dialFailed_of_disconnected peer text hstage]
    · rw [dialFailed_of_disconnected peer text hstage]
      rfl
  · intro event
    obtain ⟨added, hadded, hcalls⟩ := emit_calls .connection event c
    refine ⟨added, hadded, hcalls.trans ?_⟩
    rw [Registry.ids, List.map_map]
    rfl
  · intro hstage peer
    exact ⟨fun link now => connect_refused peer link now hstage,
      fun text => dialFailed_refused peer text hstage⟩
  · intro hstage acts hopens
    have hrests := after_rests (hrest hstage) hopens
    exact ⟨hrests.rest.stage, hrests.rest.writer, hrests.rest.send, hrests.journal⟩

end LightPeer
