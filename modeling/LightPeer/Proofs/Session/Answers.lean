import LightPeer.Proofs.Session.Reader
import LightPeer.Proofs.Session.Steps

/-!
# The side that reads, step by step

All that the side that reads does comes about in steps.  It is taken apart in the order in
which it is built: what listeners do is an aside, a message that is sent is one step between
asides at most (`transmit_cases`), and from there on each function takes the reader from the
duty it has to the duty that is left.

* `Reaction.run_aside`, `emit_aside` — what listeners do;
* `handle_answers`, `dispatch_steps` — one message, and a row of them;
* `settle_steps` — all that is done without the peer.
-/

namespace LightPeer

variable {allowed : Outgoing → Prop} {d : Duty} {loading : Bool}

namespace Connection

variable {c c' : Connection} {m : Message}

/-- What is watched are the addresses that were to be watched. -/
theorem map_address_watchedOf {addresses : List String} {watched : List Watched}
    (h : watchedOf addresses = .ok watched) : watched.map Watched.address = addresses := by
  induction addresses generalizing watched with
  | nil =>
    cases h
    rfl
  | cons address addresses ih =>
    rw [watchedOf] at h
    split at h
    · cases h
    · split at h
      · cases h
      · next rest hrest =>
        cases h
        rw [List.map_cons, ih hrest]

/-- A list that is accepted is written down, and its addresses have hashes. -/
theorem watch_aside (addresses : List String) (c : Connection) :
    c.Aside (c.watch addresses).1 := by
  unfold watch
  split
  · exact .refl c
  · next list hlist =>
    refine ⟨rfl, rfl, rfl, rfl, .inr ⟨addresses, hlist⟩, fun htold => ⟨?_, ?_⟩,
      [.watching addresses], rfl, ?_⟩
    · exact (watchedAfter_snoc ..).trans (map_address_watchedOf hlist).symm
    · exact (policyAfter_snoc ..).trans htold.tuning
    · intro entry hentry
      rw [List.mem_singleton.mp hentry]
      trivial

/-- A new listener is told nothing before the next event. -/
theorem listen_aside (kind : ListenerKind) (listener : Listener kind) (c : Connection) :
    c.Aside (c.listen kind listener).2 :=
  .quiet rfl rfl rfl rfl rfl rfl rfl

theorem removeListener_aside (id : ListenerId) (c : Connection) :
    c.Aside (c.removeListener id).2 :=
  .quiet rfl rfl rfl rfl rfl rfl rfl

/-- How filters are built is a setting, which is written down. -/
theorem setPolicy_aside (policy : FilterPolicy) (c : Connection) :
    c.Aside (c.setPolicy policy) := by
  refine ⟨rfl, rfl, rfl, rfl, .inl rfl, fun htold => ⟨?_, ?_⟩, [.tuning policy], rfl, ?_⟩
  · exact (watchedAfter_snoc ..).trans htold.watching
  · exact policyAfter_snoc ..
  · intro entry hentry
    rw [List.mem_singleton.mp hentry]
    trivial

/-- A report of trouble that does not end the session is an aside. -/
theorem notice_aside {n : Notice} (h : (Entry.noticed n).IsAside c.session.stage) :
    c.Aside (c.notice n) :=
  record_aside h rfl

/-- What the reader has to do is no part of the session. -/
theorem task_aside (task : Task) (c : Connection) : c.Aside { c with task } :=
  .quiet rfl rfl rfl rfl rfl rfl rfl

/-- Nor is what lies on the link. -/
theorem link_aside (link : Link) (c : Connection) : c.Aside { c with link } :=
  .quiet rfl rfl rfl rfl rfl rfl rfl

/-- Nor is chance. -/
theorem dice_aside (dice : Dice) (c : Connection) : c.Aside { c with dice } :=
  .quiet rfl rfl rfl rfl rfl rfl rfl

end Connection

/-- What a listener does is an aside:  it may change what is watched, how filters are built and who
listens, and it may say something, but it does not reach the session. -/
theorem Reaction.run_aside (r : Reaction) (c : Connection) : c.Aside (r.run c).1 := by
  induction r generalizing c with
  | finish outcome => exact .refl c
  | say line next ih =>
    have hsaid : c.Aside (c.record (.said line)) := Connection.record_aside trivial rfl
    exact hsaid.trans (ih _)
  | look next ih => exact ih _ c
  | «recall» next ih => exact ih _ c
  | watch addresses next ih => exact (c.watch_aside addresses).trans (ih _ _)
  | tune policy next ih => exact (c.setPolicy_aside policy).trans (ih _)
  | listen kind listener next _ ih => exact (c.listen_aside kind listener).trans (ih _ _)
  | remove id next ih => exact (c.removeListener_aside id).trans (ih _ _)

namespace Connection

variable {c c' : Connection} {m : Message}

/-- A call is written down with the stage that the session is in, and so it is an aside in that
stage. -/
theorem call_aside (kind : ListenerKind) (event : kind.Event) (c : Connection)
    (entry : ListenerId × Listener kind) : c.Aside (call kind event c entry) := by
  have hcalled : c.Aside (c.record (.called entry.1 c.session.stage (.ofKind kind event))) :=
    record_aside rfl rfl
  have hrun := hcalled.trans ((entry.2 event).run_aside _)
  unfold call
  dsimp only
  split
  · exact hrun
  · exact hrun.trans (notice_aside trivial)

/-- To tell an event is an aside, once it is written down that it happened. -/
theorem emit_aside (kind : ListenerKind) (event : kind.Event) (c : Connection) :
    (c.record (.emitted (.ofKind kind event))).Aside (emit kind event c) := by
  have hcalls : ∀ (entries : List (ListenerId × Listener kind)) (start : Connection),
      start.Aside (entries.foldl (call kind event) start) := by
    intro entries
    induction entries with
    | nil => exact .refl
    | cons entry entries ih =>
      intro start
      exact (call_aside kind event start entry).trans (ih _)
  exact hcalls _ _

/-- What is still to be written has been noted before. -/
theorem flush_aside (c : Connection) : c.Aside c.flush.1 := by
  unfold flush
  cases hwriter : c.writer with
  | none => exact .refl c
  | some pending => exact .quiet rfl rfl (by rw [hwriter]; rfl) rfl rfl rfl rfl

/-- The message did not get as far as the writer.  It is refused, or it waits. -/
structure Withheld (m : Outgoing) (c c' : Connection) (progress : Progress) : Prop where
  aside : c.Aside c'
  waits : progress = .blocked (some m) ∨ ∃ cause, progress = .failed cause

/-- The message was handed to the writer.  If it is held up, then not as a message. -/
structure Handed (m : Outgoing) (c c' : Connection) (progress : Progress) : Prop where
  sent : ∃ between, c.Aside between ∧ between.writer.isSome ∧ (between.record (.sent m)).Aside c'
  waits : ∀ unsent, progress = .blocked unsent → unsent = none

/-- A message is refused where there is no writer.  Otherwise it is handed to the writer and
noted. -/
theorem push_cases (m : Outgoing) (c : Connection) :
    Withheld m c (c.push m).1 (c.push m).2 ∨ Handed m c (c.push m).1 (c.push m).2 := by
  unfold push
  cases hwriter : c.writer with
  | none => exact .inl ⟨.refl c, .inr ⟨_, rfl⟩⟩
  | some pending =>
    refine .inr ⟨⟨c, .refl c, by rw [hwriter]; rfl, ?_⟩, fun unsent => flush_blocked⟩
    refine .trans ?_ (flush_aside _)
    exact .quiet rfl rfl (by rw [record, hwriter]; rfl) rfl rfl rfl rfl

/-- What becomes of a message that is sent:  it is withheld, and then nothing of it is written down,
or it is handed to the writer. -/
theorem transmit_cases (m : Outgoing) (c : Connection) :
    Withheld m c (c.transmit m).1 (c.transmit m).2 ∨
      Handed m c (c.transmit m).1 (c.transmit m).2 := by
  have hflush := flush_aside c
  unfold transmit
  split
  · split
    · next flushed hdone =>
      rw [hdone] at hflush
      rcases push_cases m flushed with ⟨haside, hwaits⟩ | ⟨hsent, hwaits⟩
      · exact .inl ⟨hflush.trans haside, hwaits⟩
      · obtain ⟨between, hbetween, hwriter, haside⟩ := hsent
        exact .inr ⟨⟨between, hflush.trans hbetween, hwriter, haside⟩, hwaits⟩
    · next hblocked =>
      rw [hblocked] at hflush
      exact .inl ⟨hflush, .inl rfl⟩
    · next hfailed =>
      rw [hfailed] at hflush
      exact .inl ⟨hflush, .inr ⟨_, rfl⟩⟩
  · exact push_cases m c

/-- A peer that takes no filter is not sent one, and the call fails without a trace. -/
theorem transmitFilter_refused (h : ¬ c.TakesFilter) :
    ∃ cause, c.transmitFilter = (c, .failed cause) := by
  by_cases hstage : c.session.stage = .ready
  · by_cases hbloom : c.session.services.contains .bloom = true
    · exact absurd ⟨hstage, hbloom⟩ h
    · exact ⟨.filterNotSupported, by rw [transmitFilter]; simp [hstage, hbloom]⟩
  · exact ⟨.notConnected, by rw [transmitFilter]; simp [hstage]⟩

/-- Where nothing is watched there is nothing to hand over, and the call ends well. -/
theorem transmitFilter_nothing (h : c.TakesFilter) (hfilter : c.hasFilter = false) :
    c.transmitFilter = (c, .done) := by
  rw [transmitFilter]
  simp [h.stage, h.services, hfilter]

/-- What becomes of a filter is what becomes of the message; and if it is written, it is noted. -/
theorem transmitFilter_eq (h : c.TakesFilter) (hfilter : c.hasFilter) :
    c.transmitFilter =
      let sent := { c with dice := c.dice.roll.2 }.transmit (.filterLoad c.nextFilter)
      (if sent.2 = .done then sent.1.markLoaded else sent.1, sent.2) := by
  rw [transmitFilter]
  simp only [h.stage, h.services, hfilter, ne_eq, not_true_eq_false, Bool.not_true,
    Bool.false_eq_true, if_false]
  split
  · next c' hdone =>
    have hsent : transmit (.filterLoad c.nextFilter) { c with dice := c.dice.roll.2 } =
        (c', .done) := hdone
    simp only [hsent, if_true]
  · next stopped hstopped =>
    have hnot : (transmit (.filterLoad c.nextFilter) { c with dice := c.dice.roll.2 }).2 ≠ .done :=
      fun hdone => hstopped _ (Prod.ext rfl hdone)
    exact Prod.ext (if_neg hnot).symm rfl

end Connection

open Connection

/-- The duty with which an answer leaves the reader: `after` it, or in the midst of it. -/
def Progress.Leaves (after : Duty) (loading : Bool) : Progress → Duty → Prop
  | .done, d => d = after
  | .blocked unsent, d => d = .waiting unsent loading
  | .failed _, d => d.isLive = true

namespace Connection

variable {c c' : Connection} {m : Message}

/-- A message that is sent is handed to the writer at once, or waits in front of it. -/
theorem transmit_steps (allowed : Outgoing → Prop) (loading : Bool) (m : Outgoing)
    (c : Connection) :
    ∃ d, (c.transmit m).2.Leaves (.waiting none loading) loading d ∧
      Steps allowed (.waiting (some m) loading, c) (d, (c.transmit m).1) := by
  rcases transmit_cases m c with ⟨haside, hwaits⟩ | ⟨⟨between, hbefore, hwriter, hafter⟩, hwaits⟩
  · refine ⟨.waiting (some m) loading, ?_, .single (.aside haside)⟩
    rcases hwaits with hblocked | ⟨cause, hfailed⟩
    · rw [hblocked]
      rfl
    · rw [hfailed]
      rfl
  · have hsteps : Steps allowed (.waiting (some m) loading, c)
        (.waiting none loading, (c.transmit m).1) :=
      (((Relation.ReflTransGen.single (.aside hbefore)).tail (.hands hwriter)).tail (.aside hafter))
    refine ⟨.waiting none loading, ?_, hsteps⟩
    cases hprogress : (c.transmit m).2 with
    | done => rfl
    | blocked unsent =>
      rw [hwaits unsent hprogress]
      rfl
    | failed cause => rfl

/-- A reply that was held up comes as far as the writer now, or all the way. -/
theorem carryOn_steps (allowed : Outgoing → Prop) (loading : Bool) (unsent : Option Outgoing)
    (c : Connection) :
    ∃ d, (c.carryOn unsent).2.Leaves (.waiting none loading) loading d ∧
      Steps allowed (.waiting unsent loading, c) (d, (c.carryOn unsent).1) := by
  cases unsent with
  | some m => exact transmit_steps allowed loading m c
  | none =>
    refine ⟨.waiting none loading, ?_, .single (.aside (flush_aside c))⟩
    show c.flush.2.Leaves _ _ _
    cases hprogress : c.flush.2 with
    | done => rfl
    | blocked unsent =>
      rw [flush_blocked hprogress]
      rfl
    | failed cause => rfl

/-- When an answer is written, the reader takes up the next message.  A filter is noted. -/
theorem finish_steps {start : Duty × Connection} {progress : Progress}
    (hleaves : progress.Leaves (.waiting none loading) loading d)
    (hsteps : Steps allowed start (d, c)) :
    ∃ d', progress.Leaves .working loading d' ∧
      Steps allowed start (d', if loading = true ∧ progress = .done then c.markLoaded else c) := by
  cases progress with
  | done =>
    cases hleaves
    refine ⟨.working, rfl, ?_⟩
    have hfinish : Steps allowed start (.working, if loading then c.markLoaded else c) :=
      hsteps.tail .finishes
    cases loading with
    | true => exact hfinish
    | false => exact hfinish
  | _ => exact ⟨d, hleaves, by simpa using hsteps⟩

/-- From a message that has come up, the reader comes to what its handling has led to. -/
def Answers (allowed : Outgoing → Prop) (m : Message) (c : Connection)
    (result : Connection × Progress) : Prop :=
  ∃ d, result.2.Leaves .working (m = .verack) d ∧ Steps allowed (.handling m, c) (d, result.1)

/-- A message without an answer is passed over. -/
theorem Answers.pass (hanswer : c.answer? m = none) : Answers allowed m c (c, .done) :=
  ⟨.working, rfl, .single (.passes hanswer)⟩

/-- Listeners are told of a message that needs no answer. -/
theorem Answers.emit {kind : ListenerKind} {event : kind.Event}
    (hreport : m.report? = some (.ofKind kind event))
    (hanswer : (emit kind event c).answer? m = none) :
    Answers allowed m c (Connection.emit kind event c, .done) := by
  have htold : Steps allowed (.handling m, c) (.handling m, Connection.emit kind event c) :=
    (Relation.ReflTransGen.single (.tells hreport)).tail (.aside (emit_aside kind event c))
  exact ⟨.working, rfl, htold.tail (.passes hanswer)⟩

/-- An answer is given as far as the peer takes it. -/
theorem Answers.transmit {reply : Outgoing} (hanswer : c.answer? m = some reply)
    (hm : m ≠ .verack) : Answers allowed m c (c.transmit reply) := by
  have hanswers : Step allowed (.handling m, c) _ := .answers hanswer (absurd · hm)
  obtain ⟨d, hleaves, hsteps⟩ := transmit_steps allowed (m = .verack) reply c
  obtain ⟨d', hleaves', hsteps'⟩ := finish_steps hleaves (hsteps.head hanswers)
  refine ⟨d', hleaves', ?_⟩
  rw [if_neg (by simp [hm])] at hsteps'
  exact hsteps'

/-- A filter answers the end of the handshake, as a confirmation answers an introduction. -/
theorem Answers.transmitFilter (hfilter : c.hasFilter) :
    Answers allowed .verack c c.transmitFilter := by
  by_cases htakes : c.TakesFilter
  · have hanswer : c.answer? .verack = some (.filterLoad c.nextFilter) := if_pos hfilter
    have hanswers : Step allowed (.handling .verack, c)
        (.waiting (some (.filterLoad c.nextFilter)) true, c) := .answers hanswer fun _ => htakes
    obtain ⟨d, hleaves, hsteps⟩ := transmit_steps allowed true
      (.filterLoad c.nextFilter) { c with dice := c.dice.roll.2 }
    have hrolls := (hsteps.head (.aside (dice_aside c.dice.roll.2 c))).head hanswers
    obtain ⟨d', hleaves', hsteps'⟩ := finish_steps hleaves hrolls
    rw [transmitFilter_eq htakes hfilter]
    exact ⟨d', hleaves', by simpa using hsteps'⟩
  · obtain ⟨cause, hrefused⟩ := transmitFilter_refused htakes
    rw [hrefused]
    exact ⟨.handling .verack, rfl, .refl⟩

/-- The end of the handshake is told, and then answered with a filter if something is watched. -/
theorem onVerack_answers (c : Connection) :
    Answers allowed .verack (c.heed .verack) (c.record (.received .verack)).onVerack := by
  let ready := emit .connection .verack ((c.record (.received .verack)).enter .ready)
  have htold : Steps allowed (.handling .verack, c.heed .verack) (.handling .verack, ready) :=
    .single (.aside (emit_aside .connection .verack _))
  have hready : Answers allowed .verack ready
      (if ready.hasFilter then ready.transmitFilter else (ready, .done)) := by
    split
    · next hfilter => exact .transmitFilter hfilter
    · next hfilter => exact .pass (if_neg hfilter)
  obtain ⟨d, hleaves, hsteps⟩ := hready
  exact ⟨d, hleaves, htold.trans hsteps⟩

/-- A message that has come up is handled, and what this comes to is one of the answers that there
are. -/
theorem handle_answers (allowed : Outgoing → Prop) (m : Message) (c : Connection) :
    Answers allowed m (c.heed m) ((c.record (.received m)).handle m) := by
  cases m with
  | version v =>
    show Answers allowed _ _ ((c.record (.received (.version v))).onVersion v)
    rw [onVersion_eq]
    split
    · next hold => exact .transmit (if_pos hold) nofun
    · next hold => exact .pass (if_neg hold)
  | verack => exact onVerack_answers c
  | ping p =>
    show Answers allowed _ (c.record (.received (.ping p))) (Connection.onPing p _)
    unfold onPing
    split
    · next nonce hnonce => exact .transmit (by rw [answer?, hnonce]; rfl) nofun
    · next hnonce => exact .pass (by rw [answer?, hnonce]; rfl)
  | inv entries =>
    show Answers allowed _ (c.record (.received (.inv entries))) (Connection.onInventory entries _)
    unfold onInventory
    dsimp only
    split
    · next hempty => exact .pass (if_pos hempty)
    · next hempty => exact .transmit (if_neg hempty) nofun
  | tx t => exact .emit rfl rfl
  | block b => exact .emit rfl rfl
  | merkleBlock b =>
    show Answers allowed _ (c.record (.received (.merkleBlock b))) (Connection.onMerkleBlock b _)
    unfold onMerkleBlock
    cases hblock : FilteredBlock.ofMerkleBlock b with
    | error cause => exact ⟨.handling (.merkleBlock b), rfl, .refl⟩
    | ok block => exact .emit (by rw [Message.report?, hblock]; rfl) rfl

/-- The duty with which a row of messages leaves the reader. -/
def Stop.Leaves : Stop → Duty → Prop
  | .handled, d => d = .working
  | .blocked unsent _ loading, d => d = .waiting unsent loading
  | .failed _, d => d.isLive = true

/-- **A row of messages is a row of steps.**  By induction on the messages: each is taken up, told
or answered, and makes way for the next. -/
theorem dispatch_steps (allowed : Outgoing → Prop) (ms : List Message) (c : Connection) :
    ∃ d, (dispatch ms c).2.Leaves d ∧ Steps allowed (.working, c) (d, (dispatch ms c).1) := by
  induction ms generalizing c with
  | nil => exact ⟨.working, rfl, .refl⟩
  | cons m ms ih =>
    obtain ⟨d, hleaves, hsteps⟩ := handle_answers allowed m c
    have hheard := hsteps.head (.hears m)
    rw [dispatch]
    rcases hm : (c.record (.received m)).handle m with ⟨c', progress⟩
    rw [hm] at hleaves hheard
    cases progress with
    | done =>
      cases hleaves
      obtain ⟨d', hleaves', hrest⟩ := ih c'
      exact ⟨d', hleaves', hheard.trans hrest⟩
    | blocked unsent => exact ⟨d, hleaves, hheard⟩
    | failed cause => exact ⟨d, hleaves, hheard⟩

/-- Once the session is over, the listeners are told, and what they do does not bring it back. -/
theorem ended_aside (h : c.signals.parted = false) : c.ended.Aside c.endSession := by
  rw [endSession, if_neg (by rw [h]; exact Bool.false_ne_true)]
  exact emit_aside .connection .disconnected c.part

/-- Once there is no writer, it does not matter to the session what lies on the link. -/
theorem hangUp_aside (c : Connection) : Aside { c with writer := none } c.hangUp :=
  .quiet rfl rfl rfl rfl rfl rfl rfl

/-- A link that is hung up is closed, and then the session is over. -/
theorem ending_steps (h : c.signals.parted = false) :
    Steps allowed (.closing, { c with writer := none }) (.idle, c.hangUp.endSession) :=
  ((Relation.ReflTransGen.single (.aside (hangUp_aside c))).tail .ends).tail
    (.aside (ended_aside (c := c.hangUp) h))

/-- A session whose link is hung up ends in one more step. -/
theorem endSession_steps (h : d.isLive) (hfits : d.Fits c) :
    Steps allowed (d, c) (.idle, c.hangUp.endSession) :=
  (ending_steps (hfits.parted_eq h)).head (.hangsUp h)

/-- If the link does not close, the reader stays to see it closed, and the session has not ended. -/
theorem conclude_steps (h : d.isLive) (hfits : d.Fits c) :
    Steps allowed (d, c) (c.conclude.task.duty, c.conclude) := by
  unfold conclude
  split
  · exact (Relation.ReflTransGen.single (.hangsUp h)).tail (.aside (task_aside .closing _))
  · exact (endSession_steps h hfits).tail (.aside (task_aside .finished _))

/-- The reason is written down, and then the session ends like any other. -/
theorem abandon_steps (h : d.isLive) (hfits : d.Fits c) (cause : SessionError) :
    Steps allowed (d, c) ((c.abandon cause).task.duty, c.abandon cause) := by
  let failed := c.notice (.sessionFailed c.session.peer cause)
  have habandons : Step allowed (d, c) (.closing, { failed with writer := none }) :=
    .abandons c.session.peer cause h
  show Steps allowed (d, c) (failed.conclude.task.duty, failed.conclude)
  unfold conclude
  split
  · exact (Relation.ReflTransGen.single habandons).tail (.aside (task_aside .closing _))
  · exact (Relation.ReflTransGen.single habandons).trans
      ((ending_steps (c := failed) (hfits.parted_eq h)).tail (.aside (task_aside .finished _)))

/-- What comes of a portion is a row of steps, whether the reader waits for more, waits for the
peer, or ends the session. -/
theorem proceed_steps (received : Backlog) (hfits : Duty.working.Fits c) :
    Steps allowed (.working, c) ((c.proceed received).task.duty, c.proceed received) := by
  obtain ⟨d, hleaves, hsteps⟩ := dispatch_steps allowed received.messages c
  unfold proceed
  rcases hstop : dispatch received.messages c with ⟨c', stop⟩
  rw [hstop] at hleaves hsteps
  have hfits' := hsteps.fits hfits
  cases stop with
  | failed cause => exact hsteps.trans (abandon_steps hleaves hfits' cause)
  | blocked unsent messages loading =>
    cases hleaves
    exact hsteps.tail (.aside (task_aside _ c'))
  | handled =>
    cases hleaves
    dsimp only
    split
    · exact hsteps.trans (abandon_steps rfl hfits' _)
    · exact hsteps.tail (.aside (task_aside _ c'))

/-- What comes of all bytes that lie on the link is a row of steps. -/
theorem readFrom_steps (waiting : Bytes) (hfits : c.task.duty.Fits c) :
    Steps allowed (c.task.duty, c) ((c.readFrom waiting).task.duty, c.readFrom waiting) := by
  fun_induction readFrom waiting c with
  | case1 c left htask => exact .refl
  | case2 waiting c left htask hsome intake size received ih =>
    rw [htask] at hfits
    have hleft := link_aside { c.link with inbound := waiting.drop size } c
    have hproceeds : Steps allowed (.working, c.leave (waiting.drop size)) _ :=
      proceed_steps received (hfits.aside hleft)
    rw [htask]
    exact (hproceeds.head (.aside hleft)).trans (ih (hproceeds.fits (hfits.aside hleft)))
  | case3 waiting c htask => exact .refl

/-- So is what comes of the end of the stream. -/
theorem readEnding_steps (hfits : c.task.duty.Fits c) :
    Steps allowed (c.task.duty, c) (c.readEnding.task.duty, c.readEnding) := by
  unfold readEnding
  split
  · next htask _ =>
    rw [htask] at hfits ⊢
    exact abandon_steps rfl hfits _
  · next htask _ =>
    rw [htask] at hfits ⊢
    split
    · exact abandon_steps rfl hfits _
    · exact conclude_steps rfl hfits
  · exact .refl

/-- So is what comes of a reply that was held up, and of the messages behind it. -/
theorem resume_steps (hfits : c.task.duty.Fits c) :
    Steps allowed (c.task.duty, c) (c.resume.task.duty, c.resume) := by
  unfold resume
  split
  · next unsent backlog loading htask =>
    obtain ⟨d, hleaves, hsteps⟩ := carryOn_steps allowed loading unsent c
    rw [htask] at hfits ⊢
    rcases hcarried : c.carryOn unsent with ⟨c', progress⟩
    rw [hcarried] at hleaves hsteps
    have hfits' := hsteps.fits hfits
    cases progress with
    | done =>
      cases hleaves
      have hfinished : Steps allowed _ _ := hsteps.tail .finishes
      exact hfinished.trans (proceed_steps backlog (hfinished.fits hfits))
    | blocked unsent =>
      cases hleaves
      exact hsteps.tail (.aside (task_aside _ c'))
    | failed cause => exact hsteps.trans (abandon_steps hleaves hfits' cause)
  · exact .refl

/-- So is the end that the owner has wanted, once the reader has come to a place where it can be
called away. -/
theorem halt_steps (hfits : c.task.duty.Fits c) :
    Steps allowed (c.task.duty, c) (c.halt.task.duty, c.halt) := by
  unfold halt
  split
  · next htask =>
    rw [htask] at hfits ⊢
    exact conclude_steps rfl hfits
  · next htask =>
    rw [htask] at hfits ⊢
    exact conclude_steps rfl hfits
  · exact .refl

/-- All that is done without the peer is a row of steps. -/
theorem settle_steps (hfits : c.task.duty.Fits c) :
    Steps allowed (c.task.duty, c) (c.settle.task.duty, c.settle) := by
  unfold settle
  split
  · exact halt_steps hfits
  · have hresumed : Steps allowed (c.task.duty, c) (c.resume.task.duty, c.resume) :=
      resume_steps hfits
    have hread : Steps allowed (c.resume.task.duty, c.resume) _ :=
      readFrom_steps c.resume.link.inbound (hresumed.fits hfits)
    exact hresumed.trans (hread.trans (readEnding_steps (hread.fits (hresumed.fits hfits))))

end Connection

end LightPeer
