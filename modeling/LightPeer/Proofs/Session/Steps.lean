import Mathlib.Logic.Relation
import LightPeer.Proofs.Session.Chronicle
import LightPeer.Proofs.Session.Handling

/-!
# The steps of a connection

Whatever is done with a connection, it comes about in small steps, and `Step` says what they
are: a session is claimed and its link opened, the peer is greeted, a message comes up and is
told to the listeners or answered, an answer is handed to the writer and written, the link is
hung up and the session ends.  All else is an aside, which leaves the session alone.

A step is one of a pair, a connection and the duty of the side that reads.  Between two acts
the duty is the one of the task of the connection (`Task.duty`); within an act it tells how
far the act has come.

`Step` says once what can happen, so that an invariant is a property of such pairs which
each kind of step keeps:

* `Steps.keep` — what every step keeps is kept by a row of steps;
* `Step.fits` — duty, stage, writer and signals go together;
* `Steps.journal_extends` — a journal only grows.
-/

namespace LightPeer

/-- What the side that reads has to do. -/
inductive Duty
  /-- Nothing. -/
  | idle
  /-- A session is claimed, and its link is being opened. -/
  | dialling
  /-- The link is open, and the peer has not been greeted. -/
  | greeting
  /-- To take up the next message. -/
  | working
  /-- To tell listeners of a message and to answer it. -/
  | handling (m : Message)
  /-- To wait until an answer is written, which may hand over a filter. -/
  | waiting (unsent : Option Outgoing) (loading : Bool)
  /-- To see the link closed. -/
  | closing

/-- Whether there is a link that can be hung up. -/
def Duty.isLive : Duty → Bool
  | .idle | .dialling | .closing => false
  | _ => true

/-- Whether an answer is on its way. -/
def Duty.isWaiting : Duty → Bool
  | .waiting .. => true
  | _ => false

/-- The duty of a reader between two acts. -/
def Task.duty : Task → Duty
  | .none => .idle
  | .reading _ => .working
  | .replying unsent _ loading => .waiting unsent loading
  | .closing => .closing
  | .finished => .idle

namespace Connection

variable {c c' c'' : Connection}

/-- The journal tells which addresses are watched and how filters are built. -/
structure SettingsTold (c : Connection) : Prop where
  watching : watchedAfter c.journal = c.filterList
  tuning : policyAfter c.config.filter c.journal = c.policy

/-- An entry about something else leaves it so. -/
theorem SettingsTold.noted {entry : Entry} (h : c.SettingsTold) (hentry : entry.isSetting = false)
    (hconfig : c'.config = c.config) (hwatched : c'.watched = c.watched)
    (hpolicy : c'.policy = c.policy) (hjournal : c'.journal = c.journal ++ [entry]) :
    c'.SettingsTold := by
  constructor
  · rw [hjournal, watchedAfter_snoc, Entry.watchedFrom_of_not hentry, filterList, hwatched]
    exact h.watching
  · rw [hjournal, policyAfter_snoc, Entry.policyFrom_of_not hentry, hconfig, hpolicy]
    exact h.tuning

/-- Nothing is written down, and the settings are the same. -/
theorem SettingsTold.quiet (h : c.SettingsTold) (hconfig : c'.config = c.config)
    (hwatched : c'.watched = c.watched) (hpolicy : c'.policy = c.policy)
    (hjournal : c'.journal = c.journal) : c'.SettingsTold := by
  constructor
  · rw [hjournal, filterList, hwatched]
    exact h.watching
  · rw [hjournal, hconfig, hpolicy]
    exact h.tuning

/-- Between two states the session is left alone.  What may change are the link and the bytes
that go out over it, the task of the reader, and listeners.  Settings may change, which is written
down, and then only addresses are watched that have hashes. -/
structure Aside (c c' : Connection) : Prop where
  config : c'.config = c.config
  session : c'.session = c.session
  writer : c'.writer.isSome = c.writer.isSome
  signals : c'.signals = c.signals
  watched : c'.watched = c.watched ∨ ∃ addresses, watchedOf addresses = .ok c'.watched
  told : c.SettingsTold → c'.SettingsTold
  journal : ∃ entries, c'.journal = c.journal ++ entries ∧
    ∀ entry ∈ entries, entry.IsAside c.session.stage

/-- An aside behind an aside is an aside. -/
theorem Aside.trans (h : c.Aside c') (h' : c'.Aside c'') : c.Aside c'' := by
  obtain ⟨entries, hentries, hasides⟩ := h.journal
  obtain ⟨entries', hentries', hasides'⟩ := h'.journal
  rw [h.session] at hasides'
  refine ⟨h'.config.trans h.config, h'.session.trans h.session, h'.writer.trans h.writer,
    h'.signals.trans h.signals, ?_, h'.told ∘ h.told, entries ++ entries', ?_, ?_⟩
  · rcases h'.watched with hsame | haddresses
    · rw [hsame]
      exact h.watched
    · exact .inr haddresses
  · rw [hentries', hentries, List.append_assoc]
  · intro entry hentry
    rcases List.mem_append.mp hentry with hold | hnew
    · exact hasides entry hold
    · exact hasides' entry hnew

/-- Nothing is written down, and the settings are the same. -/
theorem Aside.quiet (hconfig : c'.config = c.config) (hsession : c'.session = c.session)
    (hwriter : c'.writer.isSome = c.writer.isSome) (hsignals : c'.signals = c.signals)
    (hwatched : c'.watched = c.watched) (hpolicy : c'.policy = c.policy)
    (hjournal : c'.journal = c.journal) : c.Aside c' := by
  refine ⟨hconfig, hsession, hwriter, hsignals, .inl hwatched, fun htold => ?_, [], ?_, nofun⟩
  · exact htold.quiet hconfig hwatched hpolicy hjournal
  · exact hjournal.trans (List.append_nil _).symm

theorem Aside.refl (c : Connection) : c.Aside c := .quiet rfl rfl rfl rfl rfl rfl rfl

/-- An entry that is an aside and no setting may be written down at any time. -/
theorem record_aside {entry : Entry} (h : entry.IsAside c.session.stage)
    (hentry : entry.isSetting = false) : c.Aside (c.record entry) := by
  refine ⟨rfl, rfl, rfl, rfl, .inl rfl, fun htold => ?_, [entry], rfl, ?_⟩
  · exact htold.noted hentry rfl rfl rfl rfl
  · intro other hother
    rw [List.mem_singleton.mp hother]
    exact h

/-- What a message says of the session is noted.  The end of the handshake is an event. -/
def heed (m : Message) (c : Connection) : Connection :=
  match m with
  | .version v => (c.record (.received m)).meet v
  | .verack => ((c.record (.received m)).enter .ready).record (.emitted (.connection .verack))
  | _ => c.record (.received m)

/-- The filter that is handed over next. -/
def nextFilter (c : Connection) : FilterLoad :=
  .ofFilter (filterFor c.watched c.policy.rate c.dice.roll.1.toUInt32) c.policy.update

/-- The answer that is due to a message. -/
def answer? (c : Connection) : Message → Option Outgoing
  | .version v =>
    if confirmedSince ≤ min v.version c.config.protocolVersion then some .verack else none
  | .verack =>
    if c.hasFilter then some (.filterLoad c.nextFilter) else none
  | .ping p => p.nonce.map fun nonce => .pong ⟨nonce⟩
  | .inv entries =>
    if (wanted c.session.filterLoaded entries).isEmpty then none
    else some (.getData (wanted c.session.filterLoaded entries))
  | _ => none

/-- A session with a peer is going to be opened. -/
def claimed (peer : Endpoint) (c : Connection) : Connection :=
  { c with session := { peer := some peer } }.enter .connecting

/-- The link is open, and the listeners are going to be told. -/
def opened (c : Connection) : Connection :=
  { c with writer := some [], signals := c.signals.renew }.record
    (.emitted (.connection .connected))

/-- Whether the peer can be given a filter. -/
structure TakesFilter (c : Connection) : Prop where
  stage : c.session.stage = .ready
  services : c.session.services.contains .bloom = true

/-- The session is over, and the listeners are going to be told. -/
def ended (c : Connection) : Connection :=
  c.part.record (.emitted (.connection .disconnected))

end Connection

open Connection

/-- The steps of a connection whose owner sends messages that are `allowed`. -/
inductive Step (allowed : Outgoing → Prop) : Duty × Connection → Duty × Connection → Prop
  | aside {d c c'} (h : c.Aside c') : Step allowed (d, c) (d, c')
  | claims {c} (peer : Endpoint) (h : c.session.stage = .disconnected) :
    Step allowed (.idle, c) (.dialling, c.claimed peer)
  /-- The link could not be opened. -/
  | fails {c} : Step allowed (.dialling, c) (.idle, c.enter .disconnected)
  | opens {c} : Step allowed (.dialling, c) (.greeting, c.opened)
  | introduces {c} (v : Version) :
    Step allowed (.greeting, c) (.greeting, c.record (.sent (.version v)))
  | begins {c} : Step allowed (.greeting, c) (.working, c.await)
  /-- The peer does not take the introduction. -/
  | leaves {c} : Step allowed (.greeting, c) (.idle, c)
  /-- The introduction could not be written, and closing the link does not come to an end. -/
  | strands {c} : Step allowed (.greeting, c) (.idle, { c with writer := none })
  | hears {c} (m : Message) : Step allowed (.working, c) (.handling m, c.heed m)
  | tells {c m} {kind : ListenerKind} {event : kind.Event}
      (h : m.report? = some (.ofKind kind event)) :
    Step allowed (.handling m, c) (.handling m, c.record (.emitted (.ofKind kind event)))
  | passes {c m} (h : c.answer? m = none) : Step allowed (.handling m, c) (.working, c)
  | answers {c m reply} (h : c.answer? m = some reply) (hfilter : m = .verack → c.TakesFilter) :
    Step allowed (.handling m, c) (.waiting (some reply) (m = .verack), c)
  | hands {c m loading} (h : c.writer.isSome) :
    Step allowed (.waiting (some m) loading, c) (.waiting none loading, c.record (.sent m))
  | finishes {c} {loading : Bool} :
    Step allowed (.waiting none loading, c) (.working, if loading then c.markLoaded else c)
  | hangsUp {d c} (h : d.isLive) : Step allowed (d, c) (.closing, { c with writer := none })
  /-- Something has gone wrong, and the link is hung up for that reason. -/
  | abandons {d c} (peer : Option Endpoint) (cause : SessionError) (h : d.isLive) :
    Step allowed (d, c)
      (.closing, { c.notice (.sessionFailed peer cause) with writer := none })
  | ends {c} : Step allowed (.closing, c) (.idle, c.ended)
  /-- The owner has wanted the session to end. -/
  | asks {d c} (h : d.isLive = false) : Step allowed (d, c) (d, c.ask)
  /-- The owner sends a message. -/
  | orders {d c m} (h : allowed m) (hfree : d.isWaiting = false) (hwriter : c.writer.isSome) :
    Step allowed (d, c) (d, c.record (.sent m))
  /-- The owner hands over a filter. -/
  | loads {d c m} (h : c.TakesFilter) (hfree : d.isWaiting = false) (hwriter : c.writer.isSome) :
    Step allowed (d, c) (d, (c.record (.sent (.filterLoad m))).markLoaded)

/-- A row of steps. -/
abbrev Steps (allowed : Outgoing → Prop) : Duty × Connection → Duty × Connection → Prop :=
  Relation.ReflTransGen (Step allowed)

section
variable {allowed : Outgoing → Prop} {d d' : Duty} {c c' : Connection}

/-- **What every step keeps is kept by a row of steps.** -/
theorem Steps.keep (inv : Duty → Connection → Prop)
    (hstep : ∀ {d c d' c'}, Step allowed (d, c) (d', c') → inv d c → inv d' c')
    (h : Steps allowed (d, c) (d', c')) (hinv : inv d c) : inv d' c' := by
  have hpair : ∀ s s', Steps allowed s s' → inv s.1 s.2 → inv s'.1 s'.2 := by
    intro s s' hsteps hs
    induction hsteps with
    | refl => exact hs
    | tail _ hlast ih => exact hstep hlast ih
  exact hpair _ _ h hinv

/-- What is said of the end while a session is read:  nobody wants it, it is not made known, and
there is a bell. -/
def Signals.reading : Signals := ⟨false, false, true⟩

/-- The stage, the writer and the signals that go with a duty.  A session that is being opened may
be left where it is, and so there may be one for which nobody reads. -/
def Duty.Fits (c : Connection) : Duty → Prop
  | .idle => c.session.stage = .disconnected ∧ c.writer = none ∨ c.session.stage = .connecting
  | .dialling => c.session.stage = .connecting ∧ c.writer = none
  | .greeting => c.session.stage = .connecting ∧ c.writer.isSome ∧
      c.signals.stopping = false ∧ c.signals.parted = false
  | .closing => c.session.stage ≠ .disconnected ∧ c.writer = none ∧ c.signals.parted = false
  | _ => (c.session.stage = .awaitingVerack ∨ c.session.stage = .ready) ∧ c.writer.isSome ∧
      c.signals = .reading

/-- An aside leaves stage and signals as they are, and a writer where there was one, and so the duty
still fits. -/
theorem Duty.Fits.aside (h : d.Fits c) (haside : c.Aside c') : d.Fits c' := by
  have hnone : c'.writer = none ↔ c.writer = none := by
    rw [← Option.isNone_iff_eq_none, ← Option.isNone_iff_eq_none, ← Option.not_isSome,
      ← Option.not_isSome, haside.writer]
  cases d <;> simpa only [Fits, haside.session, haside.writer, haside.signals, hnone] using h

/-- Where there is a link to hang up there is a session. -/
theorem Duty.Fits.stage_ne (h : d.Fits c) (hlive : d.isLive) :
    c.session.stage ≠ .disconnected := by
  intro hgone
  cases d <;> simp_all [Fits, isLive]

/-- As long as there is a link to hang up, the end has not been made known. -/
theorem Duty.Fits.parted_eq (h : d.Fits c) (hlive : d.isLive) : c.signals.parted = false := by
  cases d with
  | idle => cases hlive
  | dialling => cases hlive
  | closing => cases hlive
  | greeting => exact h.2.2.2
  | _ => rw [h.2.2, Signals.reading]

/-- **Duty, stage, writer and signals go together**, and a step keeps them so.  All that is known of
the reader from outside is known by this. -/
theorem Step.fits (h : Step allowed (d, c) (d', c')) (hfits : d.Fits c) : d'.Fits c' := by
  cases h with
  | aside haside => exact hfits.aside haside
  | claims peer hstage =>
    rcases hfits with ⟨_, hwriter⟩ | hconnecting
    · exact ⟨rfl, hwriter⟩
    · rw [hstage] at hconnecting
      cases hconnecting
  | fails => exact .inl ⟨rfl, hfits.2⟩
  | opens => exact ⟨hfits.1, rfl, rfl, rfl⟩
  | introduces v => exact hfits
  | @begins c =>
    have hsignals : c.await.signals = .reading := by
      show Signals.mk c.signals.stopping c.signals.parted true = _
      rw [hfits.2.2.1, hfits.2.2.2, Signals.reading]
    exact ⟨.inl rfl, hfits.2.1, hsignals⟩
  | leaves => exact .inr hfits.1
  | strands => exact .inr hfits.1
  | hears m => cases m <;> first | exact hfits | exact ⟨.inr rfl, hfits.2⟩
  | tells hreport => exact hfits
  | passes hanswer => exact hfits
  | answers hanswer hfilter => exact hfits
  | hands hwriter => exact hfits
  | @finishes c loading => cases loading <;> exact hfits
  | hangsUp hlive => exact ⟨hfits.stage_ne hlive, rfl, hfits.parted_eq hlive⟩
  | abandons peer cause hlive => exact ⟨hfits.stage_ne hlive, rfl, hfits.parted_eq hlive⟩
  | ends => exact .inl ⟨rfl, hfits.2.1⟩
  | asks hlive =>
    cases d with
    | idle => exact hfits
    | dialling => exact hfits
    | closing => exact hfits
    | _ => cases hlive
  | orders hallowed hfree hwriter => cases d <;> exact hfits
  | loads htakes hfree hwriter => cases d <;> exact hfits

/-- However far a connection has come, its duty, stage, writer and signals go together. -/
theorem Steps.fits (h : Steps allowed (d, c) (d', c')) (hfits : d.Fits c) : d'.Fits c' :=
  h.keep (fun d c => d.Fits c) Step.fits hfits

/-- The settings that a connection is made with stay for its life. -/
theorem Step.config (h : Step allowed (d, c) (d', c')) : c'.config = c.config := by
  cases h with
  | aside haside => exact haside.config
  | hears m => cases m <;> rfl
  | @finishes c loading => cases loading <;> rfl
  | _ => rfl

/-- **The journal tells the stage.**  A stage is entered and noted at once, so the last note is the
stage. -/
theorem Step.stageAfter_journal (h : Step allowed (d, c) (d', c'))
    (hstage : stageAfter c.journal = c.session.stage) :
    stageAfter c'.journal = c'.session.stage := by
  cases h with
  | aside haside =>
    obtain ⟨entries, hentries, hasides⟩ := haside.journal
    rw [hentries, stageAfter_asides hasides, hstage, haside.session]
  | hears m =>
    cases m with
    | verack =>
      show stageAfter (((c.journal ++ [_]) ++ [_]) ++ [_]) = _
      rw [stageAfter_snoc, stageAfter_snoc]
      rfl
    | _ => exact (stageAfter_snoc ..).trans hstage
  | @finishes c loading => cases loading <;> exact hstage
  | ends =>
    show stageAfter ((c.journal ++ [_]) ++ [_]) = _
    rw [stageAfter_snoc, stageAfter_snoc]
    rfl
  | claims | fails | begins => exact stageAfter_snoc ..
  | leaves | strands | passes | answers | hangsUp | asks => exact hstage
  | _ => exact (stageAfter_snoc ..).trans hstage

/-- A journal only grows, and what has been said of its entries remains true. -/
theorem Step.journal_extends (h : Step allowed (d, c) (d', c')) : c.journal <+: c'.journal := by
  cases h with
  | aside haside =>
    obtain ⟨entries, hentries, _⟩ := haside.journal
    exact ⟨entries, hentries.symm⟩
  | hears m =>
    cases m with
    | verack =>
      exact (List.prefix_append ..).trans ((List.prefix_append ..).trans (List.prefix_append ..))
    | _ => exact List.prefix_append ..
  | @finishes c loading => cases loading <;> exact List.prefix_refl _
  | ends => exact (List.prefix_append ..).trans (List.prefix_append ..)
  | _ => first | exact List.prefix_refl _ | exact List.prefix_append ..

/-- A journal only grows over any row of steps. -/
theorem Steps.journal_extends (h : Steps allowed (d, c) (d', c')) : c.journal <+: c'.journal :=
  h.keep (fun _ later => c.journal <+: later.journal)
    (fun hstep hfront => hfront.trans hstep.journal_extends) (List.prefix_refl _)

theorem Steps.config (h : Steps allowed (d, c) (d', c')) : c'.config = c.config :=
  h.keep (fun _ later => later.config = c.config) (fun hstep hsame => hstep.config.trans hsame) rfl

end

end LightPeer
