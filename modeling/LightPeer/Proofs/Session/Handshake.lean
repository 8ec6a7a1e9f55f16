import Mathlib.Data.List.Induction
import LightPeer.Proofs.Frame.Encoding
import LightPeer.Proofs.Session.Lifecycle

/-!
# What a handshake amounts to

A session becomes ready when the peer confirms the handshake, and for no other reason.  What
is known of the peer is what it said of itself when it introduced itself for the last time in
this session; if it has not, then nothing is known.

The two have nothing to do with each other.  A peer that confirms without an introduction
makes the session ready all the same (`ready_without_introduction`).

* `Step.confirmed` — only a confirmation makes a session ready;
* `Step.introduced` — what is known of the peer is what it said;
* `after_introduced` — both, for every row of acts.
-/

namespace LightPeer

/-- A session is made ready, and listeners are told so, behind a confirmation only. -/
def Confirmed (before : List Entry) (entry : Entry) : Prop :=
  entry.milestone? = some (.entered .ready) ∨ entry.milestone? = some (.told .verack) →
    .received .verack ∈ thisSession before

variable {allowed : Outgoing → Prop} {d d' : Duty} {c c' : Connection}
variable {journal before : List Entry} {entry : Entry}

/-- What is no milestone makes no session ready. -/
theorem Confirmed.of_none (h : entry.milestone? = none) : Confirmed before entry := by
  intro hmilestone
  rw [h] at hmilestone
  rcases hmilestone with hready | htold
  · cases hready
  · cases htold

/-- Other milestones may come at any time, with or without a confirmation of the peer before
them. -/
theorem Confirmed.of_ne {milestone : Milestone} (h : entry.milestone? = some milestone)
    (hready : milestone ≠ .entered .ready) (htold : milestone ≠ .told .verack) :
    Confirmed before entry := by
  intro hmilestone
  rw [h] at hmilestone
  rcases hmilestone with hsame | hsame
  · exact absurd (Option.some.inj hsame) hready
  · exact absurd (Option.some.inj hsame) htold

/-- An aside makes no session ready, and so it needs no confirmation before it. -/
theorem Confirmed.aside (before : List Entry) (entry : Entry)
    (h : entry.IsAside (stageAfter before)) : Confirmed before entry := by
  cases entry <;> first | exact Confirmed.of_none rfl | cases h

/-- Within a session an entry stands behind those in front of it. -/
theorem mem_thisSession_snoc {other : Entry} (hbegins : entry.begins = false)
    (h : other ∈ thisSession journal) : other ∈ thisSession (journal ++ [entry]) := by
  rw [thisSession_snoc, hbegins]
  exact List.mem_append_left _ h

/-- **Only a confirmation makes a session ready**, and it has been received in the same session. -/
theorem Step.confirmed (h : Step allowed (d, c) (d', c'))
    (hstage : stageAfter c.journal = c.session.stage) (hkept : Keeps Confirmed c.journal) :
    Keeps Confirmed c'.journal := by
  cases h with
  | aside haside =>
    obtain ⟨entries, hentries, hasides⟩ := haside.journal
    rw [hentries]
    exact hkept.asides hstage hasides Confirmed.aside
  | claims | fails | begins | opens => exact hkept.snoc (.of_ne rfl nofun nofun)
  | hears m =>
    have hheard : Keeps Confirmed (c.record (.received m)).journal := hkept.snoc (.of_none rfl)
    cases m with
    | verack =>
      have hconfirmed : .received .verack ∈ thisSession (c.record (.received .verack)).journal := by
        show _ ∈ thisSession (c.journal ++ [_])
        rw [thisSession_snoc]
        exact List.mem_append_right _ List.mem_cons_self
      have hready : Keeps Confirmed ((c.record (.received .verack)).enter .ready).journal :=
        hheard.snoc fun _ => hconfirmed
      exact hready.snoc fun _ => mem_thisSession_snoc rfl hconfirmed
    | _ => exact hheard
  | tells hreport => exact hkept.snoc (.of_none (milestone?_report hreport))
  | @finishes c loading => cases loading <;> exact hkept
  | ends => exact Keeps.snoc (hkept.snoc (.of_ne rfl nofun nofun)) (.of_ne rfl nofun nofun)
  | introduces | hands | orders | loads | abandons => exact hkept.snoc (.of_none rfl)
  | leaves | strands | passes | answers | hangsUp | asks => exact hkept

/-- A journal that keeps a rule has kept it all along. -/
theorem Keeps.of_prefix {rule : List Entry → Entry → Prop} (h : Keeps rule journal)
    (hfront : before <+: journal) : Keeps rule before := by
  obtain ⟨more, rfl⟩ := hfront
  intro front entry behind hsplit
  refine h front entry (behind ++ more) ?_
  rw [hsplit, List.append_assoc, List.cons_append]

/-- There is one entry with which a session begins, and so what comes behind the last of them is one
session. -/
theorem Entry.eq_of_begins (h : entry.begins = true) : entry = .entered .connecting := by
  cases entry with
  | entered stage => cases stage <;> first | rfl | cases h
  | _ => cases h

/-- A stage that is known behind an entry was known in front of it, or is the one that it enters. -/
theorem Entry.stage_of_stageFrom {known stage : Stage} (h : entry.stageFrom known = stage) :
    known = stage ∨ entry = .entered stage := by
  cases entry with
  | entered next => exact .inr (congrArg Entry.entered h)
  | _ => exact .inl h

/-- Whenever a session is ready, or its listeners were told so, the peer has confirmed. -/
theorem Keeps.confirmed (h : Keeps Confirmed journal)
    (hready : stageAfter journal = .ready ∨
      .emitted (.connection .verack) ∈ thisSession journal) :
    .received .verack ∈ thisSession journal := by
  induction journal using List.reverseRecOn with
  | nil => rcases hready with hready | htold <;> cases ‹_›
  | append_singleton before entry ih =>
    have hbefore := ih (h.of_prefix (List.prefix_append ..))
    have hentry : Confirmed before entry := h before entry [] rfl
    rw [stageAfter_snoc] at hready
    cases hbegins : entry.begins with
    | true =>
      rw [thisSession_snoc, hbegins, Entry.eq_of_begins hbegins] at hready
      rcases hready with hready | htold <;> cases ‹_›
    | false =>
      apply mem_thisSession_snoc hbegins
      rw [thisSession_snoc, hbegins] at hready
      rcases hready with hstage | htold
      · rcases Entry.stage_of_stageFrom hstage with hknown | rfl
        · exact hbefore (.inl hknown)
        · exact hentry (.inl rfl)
      · rcases List.mem_append.mp htold with hold | hnew
        · exact hbefore (.inr hold)
        · cases List.mem_singleton.mp hnew
          exact hentry (.inr rfl)

/-- What is known of the peer is what it said in `introduction`, or nothing. -/
structure Session.Knows (config : Config) (introduction : Option Version) (s : Session) :
    Prop where
  version : s.version = introduction.map fun v => min v.version config.protocolVersion
  services : s.services = (introduction.map Version.services).getD .none
  userAgent : s.userAgent = introduction.map Version.userAgent

/-- What is known of the peer is what the journal tells of it. -/
def Introduced (c : Connection) : Prop :=
  c.session.Knows c.config (introduction? (thisSession c.journal))

/-- An entry that tells nothing of the peer. -/
theorem introduction?_snoc_none (hbegins : entry.begins = false)
    (hnone : entry.introduction? = none) :
    introduction? (thisSession (journal ++ [entry])) = introduction? (thisSession journal) := by
  rw [thisSession_snoc, hbegins]
  exact (introduction?_snoc ..).trans (by rw [hnone]; rfl)

/-- How the peer has introduced itself is not changed by an aside. -/
theorem introduction?_asides {entries : List Entry} {stage : Stage}
    (h : ∀ entry ∈ entries, entry.IsAside stage) :
    introduction? (thisSession (journal ++ entries)) = introduction? (thisSession journal) := by
  have hnone : entries.filterMap Entry.introduction? = [] :=
    List.filterMap_eq_nil_iff.mpr fun entry hentry => (h entry hentry).introduction?
  rw [thisSession_asides h, introduction?, introduction?, List.filterMap_append, hnone,
    List.append_nil]

/-- Nothing that is known of the peer changes, and nothing new is told. -/
theorem Introduced.keep (h : Introduced c) (hconfig : c'.config = c.config)
    (hversion : c'.session.version = c.session.version)
    (hservices : c'.session.services = c.session.services)
    (huserAgent : c'.session.userAgent = c.session.userAgent)
    (hjournal : introduction? (thisSession c'.journal) = introduction? (thisSession c.journal)) :
    Introduced c' := by
  rw [Introduced, hjournal, hconfig]
  exact ⟨hversion.trans h.version, hservices.trans h.services, huserAgent.trans h.userAgent⟩

/-- When a message is taken up, what is known of the peer is still what it has said for the last
time. -/
theorem Introduced.hears (m : Message) (h : Introduced c) : Introduced (c.heed m) := by
  cases m with
  | version v =>
    have hsaid : introduction? (thisSession (c.heed (.version v)).journal) = some v := by
      show introduction? (thisSession (c.journal ++ [.received (.version v)])) = some v
      rw [thisSession_snoc]
      exact introduction?_snoc ..
    rw [Introduced, hsaid]
    exact ⟨rfl, rfl, rfl⟩
  | verack =>
    have hheard : introduction? (thisSession (c.record (.received .verack)).journal) =
        introduction? (thisSession c.journal) := introduction?_snoc_none rfl rfl
    have hready :
        introduction? (thisSession ((c.record (.received .verack)).enter .ready).journal) =
          introduction? (thisSession (c.record (.received .verack)).journal) :=
      introduction?_snoc_none rfl rfl
    exact h.keep rfl rfl rfl rfl
      ((introduction?_snoc_none rfl rfl).trans (hready.trans hheard))
  | _ => exact h.keep rfl rfl rfl rfl (introduction?_snoc_none rfl rfl)

/-- **What is known of the peer is what it said.** -/
theorem Step.introduced (h : Step allowed (d, c) (d', c')) (hknown : Introduced c) :
    Introduced c' := by
  cases h with
  | aside haside =>
    obtain ⟨entries, hentries, hasides⟩ := haside.journal
    refine hknown.keep haside.config ?_ ?_ ?_ ?_
    · rw [haside.session]
    · rw [haside.session]
    · rw [haside.session]
    · rw [hentries, introduction?_asides hasides]
  | claims peer hgone =>
    have hnothing : introduction? (thisSession (c.claimed peer).journal) = none := by
      show introduction? (thisSession (c.journal ++ [_])) = none
      rw [thisSession_snoc]
      rfl
    rw [Introduced, hnothing]
    exact ⟨rfl, rfl, rfl⟩
  | hears m => exact hknown.hears m
  | tells hreport => exact hknown.keep rfl rfl rfl rfl (introduction?_snoc_none rfl rfl)
  | @finishes c loading => cases loading <;> exact hknown.keep rfl rfl rfl rfl rfl
  | ends =>
    have hentered : introduction? (thisSession (c.journal ++ [.entered .disconnected])) =
        introduction? (thisSession c.journal) := introduction?_snoc_none rfl rfl
    exact hknown.keep rfl rfl rfl rfl ((introduction?_snoc_none rfl rfl).trans hentered)
  | fails | begins | opens | introduces | hands | orders | loads | abandons =>
    exact hknown.keep rfl rfl rfl rfl (introduction?_snoc_none rfl rfl)
  | leaves | strands | passes | answers | hangsUp | asks => exact hknown

/-- What every step keeps of what is known of the peer. -/
structure Acquainted (config : Config) (c : Connection) : Prop where
  config : c.config = config
  stage : stageAfter c.journal = c.session.stage
  confirmed : Keeps Confirmed c.journal
  introduced : Introduced c

/-- **What a handshake amounts to.**  Whenever a session is ready, or its listeners have been told
that it is, the peer has confirmed the handshake in this session.  What is known of the peer is
what it said when it introduced itself for the last time in this session, and nothing if it has
not. -/
theorem after_introduced (config : Config) (supply : IdSupply) (dice : Dice) (acts : List Act) :
    let c := (Connection.new config supply dice).after acts
    stageAfter c.journal = c.session.stage ∧
      (∀ before, before <+: c.journal →
        stageAfter before = .ready ∨ .emitted (.connection .verack) ∈ thisSession before →
          .received .verack ∈ thisSession before) ∧
      c.session.Knows config (introduction? (thisSession c.journal)) := by
  have hnew : Acquainted config (.new config supply dice) :=
    ⟨rfl, rfl, .nil Confirmed, ⟨rfl, rfl, rfl⟩⟩
  have hafter := (new_after_steps config supply dice acts).keep (fun _ => Acquainted config)
    (fun hstep h => ⟨hstep.config.trans h.config, hstep.stageAfter_journal h.stage,
      hstep.confirmed h.stage h.confirmed, hstep.introduced h.introduced⟩) hnew
  refine ⟨hafter.stage, ?_, ?_⟩
  · intro before hfront hready
    exact (hafter.confirmed.of_prefix hfront).confirmed hready
  · have hknown := hafter.introduced
    rw [Introduced, hafter.config] at hknown
    exact hknown

namespace Connection

/-- A confirmation that nobody listens for, and for which no filter is due, is noted. -/
theorem proceed_verack {intake : Intake} (hlisteners : c.listeners.connection.entries = [])
    (hwatched : c.watched = []) (hending : c.link.ending = none) :
    (c.proceed ⟨[.verack], none, intake⟩).readEnding =
      { ((c.record (.received .verack)).enter .ready).record (.emitted (.connection .verack)) with
        task := .reading intake } := by
  let ready := ((c.record (.received .verack)).enter .ready).record (.emitted (.connection .verack))
  have htold : emit .connection .verack ((c.record (.received .verack)).enter .ready) = ready := by
    show List.foldl _ _ c.listeners.connection.entries = _
    rw [hlisteners]
    rfl
  have hfilter : ready.hasFilter = false := by
    show (! c.watched.isEmpty) = false
    rw [hwatched]
    rfl
  have hhandled : (c.record (.received .verack)).onVerack = (ready, .done) := by
    rw [onVerack, htold]
    exact if_neg (by rw [hfilter]; exact Bool.false_ne_true)
  have hdispatched : dispatch [.verack] c = (ready, .handled) := by
    have hreceived : (c.record (.received .verack)).handle .verack = (ready, .done) := hhandled
    rw [dispatch]
    simp only [hreceived, dispatch]
  have hproceeded :
      c.proceed ⟨[.verack], none, intake⟩ = { ready with task := .reading intake } := by
    rw [proceed, hdispatched]
  rw [hproceeded]
  exact readEnding_eq_self fun _ _ => hending

end Connection

open Connection

/-- The frame of a confirmation. -/
def confirmation : Bytes := Frame.encode Network.mainnet.magic "verack" []

/-- A new connection is opened, and the peer confirms a handshake that has not begun. -/
def confirmOnly : List Act := [.connect default {} 0, .turn (.deliver confirmation none)]

theorem length_confirmation : confirmation.length = 24 := by
  simp only [confirmation, Frame.encode, List.length_append, Frame.length_fixedStringBytes,
    Bytes.length_ofNat, length_checksum]
  rfl

/-- From the one frame the one confirmation is read. -/
theorem drain_confirmation :
    Frame.drain Network.mainnet.magic confirmation = ⟨[.verack], none, []⟩ := by
  have hcommand : Frame.fieldCommand "verack" = "verack" := by decide
  refine Frame.drain_encode rfl (Nat.zero_le _) ?_
  rw [hcommand]
  rfl

/-- A peer that has not introduced itself makes a session ready, and the listeners are told so. -/
theorem ready_without_introduction :
    let c := (Connection.new {} ⟨1⟩ ⟨0⟩).after confirmOnly
    c.session.stage = .ready ∧ .emitted (.connection .verack) ∈ thisSession c.journal ∧
      (∀ v, .received (.version v) ∉ thisSession c.journal) ∧ c.session.version = none := by
  have hfresh : ((Connection.new {} ⟨1⟩ ⟨0⟩).begun {}).Fresh := ⟨rfl, rfl, rfl, rfl, rfl⟩
  have hsome : confirmation ≠ [] := List.ne_nil_of_length_pos (by rw [length_confirmation]; decide)
  have hfew : confirmation.length ≤ 8192 := by rw [length_confirmation]; decide
  obtain ⟨intake, -, hafter⟩ := after_begun rfl rfl hfresh drain_confirmation hsome hfew
  rw [proceed_verack rfl rfl rfl] at hafter
  obtain ⟨hello, hgreeted⟩ : ∃ hello, ((Connection.new {} ⟨1⟩ ⟨0⟩).begun {}).journal =
      [.entered .connecting, .emitted (.connection .connected), .sent hello,
        .entered .awaitingVerack] := ⟨_, rfl⟩
  have hsession : thisSession ((Connection.new {} ⟨1⟩ ⟨0⟩).after confirmOnly).journal =
      [.emitted (.connection .connected), .sent hello, .entered .awaitingVerack,
        .received .verack, .entered .ready, .emitted (.connection .verack)] := by
    rw [confirmOnly, hafter]
    simp only [record, enter, hgreeted]
    rfl
  dsimp only
  rw [hsession, confirmOnly, hafter]
  refine ⟨rfl, ?_, ?_, rfl⟩
  · simp
  · intro v hv
    simp at hv

end LightPeer
