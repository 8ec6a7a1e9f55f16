import LightPeer.Proofs.Frame.Stream
import LightPeer.Proofs.Message.RoundTrip
import LightPeer.Proofs.Session.Filtering

/-!
# How often a handshake is confirmed

Nothing keeps a peer from introducing itself again, or from confirming again, and neither message
is treated differently the second time.  So there is no bound on the confirmations of a session
(`confirmed_twice`), but each of them has its own message of the peer: a confirmation goes out for
an introduction that asks for one, and listeners are told for every confirmation that comes in.

The invariant, `Answered`, counts entries of the session in progress.  Confirmations that were
sent fall short of the introductions by the one that is still owed (`Duty.owed`).

* `howOften_snoc`, `howOften_asides` — what an entry adds to a count;
* `Step.answered` — a step keeps the counts in balance;
* `after_answered` — the balance at every moment of every row of acts;
* `confirmed_twice` — a peer that says everything twice.
-/

namespace LightPeer

open Connection

variable {d d' : Duty} {c c' : Connection} {config : Config}
variable {journal : List Entry} {entry : Entry} {p : Entry → Bool}

namespace Entry

/-- The peer introduces itself, and asks for a confirmation by its version. -/
def asks (config : Config) : Entry → Bool
  | .received (.version v) => confirmedSince ≤ min v.version config.protocolVersion
  | _ => false

/-- A confirmation is sent. -/
def confirms : Entry → Bool
  | .sent .verack => true
  | _ => false

/-- The peer confirms. -/
def isConfirmed : Entry → Bool
  | .received .verack => true
  | _ => false

/-- Listeners are told that the peer has confirmed. -/
def tellsReady : Entry → Bool
  | .emitted (.connection .verack) => true
  | _ => false

/-- Whether an entry is of one of these sorts. -/
def isCounted (config : Config) (entry : Entry) : Bool :=
  entry.asks config || (entry.confirms || (entry.isConfirmed || entry.tellsReady))

theorem isCounted_eq_false : entry.isCounted config = false ↔
    entry.asks config = false ∧ entry.confirms = false ∧ entry.isConfirmed = false ∧
      entry.tellsReady = false := by
  simp only [isCounted, Bool.or_eq_false_iff]

/-- An aside is of none of these sorts. -/
theorem IsAside.isCounted {stage : Stage} (h : entry.IsAside stage) (config : Config) :
    entry.isCounted config = false := by
  cases entry <;> first | rfl | cases h

end Entry

/-- The number of such entries in the session in progress, or in the last one. -/
def howOften (p : Entry → Bool) (journal : List Entry) : Nat := (thisSession journal).countP p

/-- One more entry of a session is counted if it is of the sort in question. -/
theorem howOften_snoc (p : Entry → Bool) (journal : List Entry) (hbegins : entry.begins = false) :
    howOften p (journal ++ [entry]) = howOften p journal + if p entry then 1 else 0 := by
  rw [howOften, thisSession_snoc, hbegins, howOften]
  exact List.countP_append.trans (congrArg _ List.countP_singleton)

/-- When a session begins, everything is counted anew, since the counts are those of the session in
progress. -/
theorem howOften_begins (p : Entry → Bool) (journal : List Entry) (hbegins : entry.begins = true) :
    howOften p (journal ++ [entry]) = 0 := by
  rw [howOften, thisSession_snoc, hbegins]
  rfl

/-- An entry of another sort does not count, whether or not it belongs to the handshake. -/
theorem howOften_other (journal : List Entry) (hbegins : entry.begins = false)
    (hother : p entry = false) : howOften p (journal ++ [entry]) = howOften p journal := by
  rw [howOften_snoc p journal hbegins, hother]
  rfl

/-- Asides are not counted, and so listeners cannot make up a confirmation. -/
theorem howOften_asides {entries : List Entry} {stage : Stage}
    (hentries : ∀ entry ∈ entries, entry.IsAside stage)
    (hother : ∀ entry, entry.IsAside stage → p entry = false) :
    howOften p (journal ++ entries) = howOften p journal := by
  have hnone : entries.countP p = 0 := by
    rw [List.countP_eq_zero]
    intro entry hentry
    rw [hother entry (hentries entry hentry)]
    exact Bool.false_ne_true
  rw [howOften, thisSession_asides hentries, List.countP_append, hnone, Nat.add_zero, howOften]

/-- Listeners are told no more often than the peer confirms, and no more confirmations are sent
than the peer has asked for. -/
structure Balanced (config : Config) (journal : List Entry) : Prop where
  told : howOften Entry.tellsReady journal ≤ howOften Entry.isConfirmed journal
  sent : howOften Entry.confirms journal ≤ howOften (Entry.asks config) journal

/-- What may be written behind the entries `before`: a confirmation that is still owed, and that
the peer has confirmed once more than listeners know. -/
def Answering (config : Config) (before : List Entry) : Entry → Prop
  | .emitted (.connection .verack) =>
    howOften Entry.tellsReady before < howOften Entry.isConfirmed before
  | .sent .verack => howOften Entry.confirms before < howOften (Entry.asks config) before
  | _ => True

/-- An aside may be written anywhere. -/
theorem Answering.aside (before : List Entry) (entry : Entry)
    (h : entry.IsAside (stageAfter before)) : Answering config before entry := by
  cases entry <;> trivial

/-- So may any entry that is not counted, at whatever moment. -/
theorem Answering.of_not_counted (before : List Entry) (h : entry.isCounted config = false) :
    Answering config before entry := by
  unfold Answering
  split
  · cases (Entry.isCounted_eq_false.mp h).2.2.2
  · cases (Entry.isCounted_eq_false.mp h).2.1
  · trivial

/-- An entry that may be written keeps the balance.  A confirmation may be written only where one is
owed. -/
theorem Balanced.snoc (h : Balanced config journal) (hentry : Answering config journal entry) :
    Balanced config (journal ++ [entry]) := by
  cases hbegins : entry.begins with
  | true =>
    constructor
    · rw [howOften_begins _ _ hbegins]
      exact Nat.zero_le _
    · rw [howOften_begins _ _ hbegins]
      exact Nat.zero_le _
  | false =>
    constructor
    · rw [howOften_snoc _ _ hbegins, howOften_snoc _ _ hbegins]
      cases htells : entry.tellsReady with
      | false => exact Nat.le_add_right_of_le h.told
      | true =>
        obtain rfl : entry = .emitted (.connection .verack) := by
          unfold Entry.tellsReady at htells
          split at htells
          · rfl
          · cases htells
        exact Nat.le_add_right_of_le hentry
    · rw [howOften_snoc _ _ hbegins, howOften_snoc _ _ hbegins]
      cases hconfirms : entry.confirms with
      | false => exact Nat.le_add_right_of_le h.sent
      | true =>
        obtain rfl : entry = .sent .verack := by
          unfold Entry.confirms at hconfirms
          split at hconfirms
          · rfl
          · cases hconfirms
        exact Nat.le_add_right_of_le hentry

/-- A journal was in balance at every moment if every entry might be written when it was. -/
theorem Keeps.balanced (h : Keeps (Answering config) journal) : Balanced config journal := by
  induction journal using List.reverseRecOn with
  | nil => exact ⟨Nat.le_refl 0, Nat.le_refl 0⟩
  | append_singleton before entry ih =>
    exact (ih (h.of_prefix (List.prefix_append ..))).snoc (h before entry [] rfl)

/-- The confirmations that are still to be sent. -/
def Duty.owed (config : Config) : Duty → Nat
  | .handling m => if (Entry.received m).asks config then 1 else 0
  | .waiting (some .verack) _ => 1
  | _ => 0

/-- What every step keeps of the confirmations of a session. -/
structure Answered (config : Config) (d : Duty) (c : Connection) : Prop where
  settings : c.config = config
  kept : Keeps (Answering config) c.journal
  told : howOften Entry.tellsReady c.journal = howOften Entry.isConfirmed c.journal
  sent : d.serves → howOften Entry.confirms c.journal + d.owed config =
    howOften (Entry.asks config) c.journal

/-- Nothing is written, and nothing more is owed. -/
theorem Answered.still (h : Answered config d c) (hconfig : c'.config = c.config)
    (hjournal : c'.journal = c.journal)
    (howed : d'.serves → d.serves ∧ d'.owed config = d.owed config) : Answered config d' c' := by
  refine ⟨hconfig.trans h.settings, ?_, ?_, fun hserves => ?_⟩
  · rw [hjournal]
    exact h.kept
  · rw [hjournal]
    exact h.told
  · rw [hjournal, (howed hserves).2]
    exact h.sent (howed hserves).1

/-- An entry is written that does not count, while nothing more is owed than before. -/
theorem Answered.write (h : Answered config d c) (hconfig : c'.config = c.config)
    (hjournal : c'.journal = c.journal ++ [entry]) (hbegins : entry.begins = false)
    (hcounted : entry.isCounted config = false)
    (howed : d'.serves → d.serves ∧ d'.owed config = d.owed config) : Answered config d' c' := by
  have hkept : Keeps (Answering config) c'.journal := by
    rw [hjournal]
    exact h.kept.snoc (.of_not_counted _ hcounted)
  obtain ⟨hasks, hconfirms, hconfirmed, htells⟩ := Entry.isCounted_eq_false.mp hcounted
  refine ⟨hconfig.trans h.settings, hkept, ?_, fun hserves => ?_⟩
  · rw [hjournal, howOften_other _ hbegins htells, howOften_other _ hbegins hconfirmed]
    exact h.told
  · rw [hjournal, howOften_other _ hbegins hconfirms, howOften_other _ hbegins hasks,
      (howed hserves).2]
    exact h.sent (howed hserves).1

/-- No confirmation is owed for a message without an answer. -/
theorem owed_of_no_answer {m : Message} (h : c.answer? m = none) :
    (Duty.handling m).owed c.config = 0 := by
  cases m with
  | version v =>
    rw [answer?] at h
    split at h
    · cases h
    · next hold => exact if_neg (by simpa [Entry.asks] using hold)
  | _ => rfl

/-- A confirmation is owed for a message as long as its answer is one. -/
theorem owed_of_answer {m : Message} {reply : Outgoing} {loading : Bool}
    (h : c.answer? m = some reply) :
    (Duty.waiting (some reply) loading).owed c.config = (Duty.handling m).owed c.config := by
  cases m with
  | version v =>
    rw [answer?] at h
    split at h
    · next hold =>
      cases h
      exact (if_pos (by simpa [Entry.asks] using hold)).symm
    · cases h
  | verack =>
    rw [answer?] at h
    split at h <;> cases h
    rfl
  | ping p =>
    obtain ⟨nonce, _, rfl⟩ := Option.map_eq_some_iff.mp h
    rfl
  | inv entries =>
    rw [answer?] at h
    split at h <;> cases h
    rfl
  | _ => cases h

/-- A confirmation of the peer is counted, and listeners are told of it. -/
theorem Answered.confirmed (h : Answered config .working c) :
    Answered config (.handling .verack) (c.heed .verack) := by
  let ready := c.journal ++ [.received .verack] ++ [.entered .ready]
  have hready (p : Entry → Bool) (hother : p (.entered .ready) = false) :
      howOften p ready = howOften p c.journal + if p (.received .verack) then 1 else 0 :=
    (howOften_other _ rfl hother).trans (howOften_snoc p _ rfl)
  have hheard (p : Entry → Bool) (hother : p (.entered .ready) = false) :
      howOften p (c.heed .verack).journal =
        (howOften p c.journal + if p (.received .verack) then 1 else 0) +
          if p (.emitted (.connection .verack)) then 1 else 0 := by
    rw [← hready p hother]
    exact howOften_snoc p ready rfl
  have hbehind : Answering config ready (.emitted (.connection .verack)) := by
    show howOften Entry.tellsReady ready < howOften Entry.isConfirmed ready
    rw [hready Entry.tellsReady rfl, hready Entry.isConfirmed rfl, h.told]
    exact Nat.lt_succ_self _
  refine ⟨h.settings, Keeps.snoc (Keeps.snoc (h.kept.snoc trivial) trivial) hbehind, ?_,
    fun _ => ?_⟩
  · rw [hheard Entry.tellsReady rfl, hheard Entry.isConfirmed rfl, h.told]
    rfl
  · rw [hheard Entry.confirms rfl, hheard (Entry.asks config) rfl]
    exact h.sent rfl

/-- An introduction asks for as many confirmations as are owed for it. -/
theorem Answered.hears (m : Message) (h : Answered config .working c) :
    Answered config (.handling m) (c.heed m) := by
  cases m with
  | version v =>
    have hjournal : (c.heed (.version v)).journal = c.journal ++ [.received (.version v)] := rfl
    refine ⟨h.settings, ?_, ?_, fun _ => ?_⟩
    · rw [hjournal]
      exact h.kept.snoc trivial
    · rw [hjournal, howOften_other _ rfl rfl, howOften_other _ rfl rfl]
      exact h.told
    · rw [hjournal, howOften_other _ rfl rfl, howOften_snoc _ _ rfl, ← h.sent rfl]
      rfl
  | verack => exact h.confirmed
  | _ => exact h.write rfl rfl rfl rfl fun _ => ⟨rfl, rfl⟩

/-- A confirmation that is owed is sent, and then it is owed no longer. -/
theorem Answered.hands {m : Outgoing} {loading : Bool}
    (h : Answered config (.waiting (some m) loading) c) :
    Answered config (.waiting none loading) (c.record (.sent m)) := by
  have hsent := h.sent rfl
  by_cases hm : m = .verack
  · subst hm
    have hjournal : (c.record (.sent .verack)).journal = c.journal ++ [.sent .verack] := rfl
    refine ⟨h.settings, h.kept.snoc ?_, ?_, fun _ => ?_⟩
    · show howOften Entry.confirms c.journal < howOften (Entry.asks config) c.journal
      rw [← hsent]
      exact Nat.lt_succ_self _
    · rw [hjournal, howOften_other _ rfl rfl, howOften_other _ rfl rfl]
      exact h.told
    · rw [hjournal, howOften_snoc _ _ rfl, howOften_other _ rfl rfl]
      exact hsent
  · have howed : (Duty.waiting (some m) loading).owed config = 0 := by
      cases m <;> first | rfl | exact absurd rfl hm
    have hcounted : (Entry.sent m).isCounted config = false := by
      cases m <;> first | rfl | exact absurd rfl hm
    exact h.write rfl rfl rfl hcounted fun _ => ⟨rfl, howed.symm⟩

/-- What is owed is still owed behind an aside, of which the counts know nothing. -/
theorem Answered.aside (h : Answered config d c) (haside : c.Aside c')
    (hstage : stageAfter c.journal = c.session.stage) : Answered config d c' := by
  obtain ⟨entries, hentries, hasides⟩ := haside.journal
  have hsame (p : Entry → Bool) (hp : ∀ entry : Entry, entry.isCounted config = false →
      p entry = false) : howOften p c'.journal = howOften p c.journal := by
    rw [hentries]
    exact howOften_asides hasides fun entry hentry => hp entry (hentry.isCounted config)
  have htells := hsame Entry.tellsReady fun _ h => (Entry.isCounted_eq_false.mp h).2.2.2
  have hconfirmed := hsame Entry.isConfirmed fun _ h => (Entry.isCounted_eq_false.mp h).2.2.1
  have hconfirms := hsame Entry.confirms fun _ h => (Entry.isCounted_eq_false.mp h).2.1
  have hasks := hsame (Entry.asks config) fun _ h => (Entry.isCounted_eq_false.mp h).1
  refine ⟨haside.config.trans h.settings, ?_, ?_, ?_⟩
  · rw [hentries]
    exact h.kept.asides hstage hasides Answering.aside
  · rw [htells, hconfirmed, h.told]
  · rw [hconfirms, hasks]
    exact h.sent

/-- **A step keeps the counts in balance**, as long as the owner does not send confirmations of
their own. -/
theorem Step.answered (h : Step (· ≠ .verack) (d, c) (d', c'))
    (hstage : stageAfter c.journal = c.session.stage) (hanswered : Answered config d c) :
    Answered config d' c' := by
  have hsettings := hanswered.settings
  cases h with
  | aside haside =>
    exact hanswered.aside haside hstage
  | claims peer hgone =>
    have hnone (p : Entry → Bool) : howOften p (c.claimed peer).journal = 0 :=
      howOften_begins p c.journal rfl
    refine ⟨hsettings, hanswered.kept.snoc trivial, ?_, fun _ => ?_⟩
    · rw [hnone, hnone]
    · rw [hnone, hnone]
      rfl
  | hears m => exact hanswered.hears m
  | hands hwriter => exact hanswered.hands
  | @tells c m kind event hreport =>
    have hcounted : (Entry.emitted (.ofKind kind event)).isCounted config = false := by
      have hnone := milestone?_report hreport
      cases kind with
      | connection => cases hnone
      | _ => rfl
    exact hanswered.write rfl rfl rfl hcounted fun _ => ⟨rfl, rfl⟩
  | passes hanswer =>
    have hnone := owed_of_no_answer hanswer
    rw [hsettings] at hnone
    exact hanswered.still rfl rfl fun _ => ⟨rfl, hnone.symm⟩
  | answers hanswer hfilter =>
    refine hanswered.still rfl rfl fun _ => ⟨rfl, ?_⟩
    rw [← hsettings]
    exact owed_of_answer hanswer
  | @finishes c loading => cases loading <;> exact hanswered.still rfl rfl fun _ => ⟨rfl, rfl⟩
  | @ends c =>
    have hentered : Answered config .closing (c.enter .disconnected) :=
      hanswered.write rfl rfl rfl rfl nofun
    exact hentered.write rfl rfl rfl rfl nofun
  | @orders d c m hm hfree hwriter =>
    have hcounted : (Entry.sent m).isCounted config = false := by
      cases m <;> first | rfl | exact absurd rfl hm
    exact hanswered.write rfl rfl rfl hcounted fun h => ⟨h, rfl⟩
  | loads htakes hfree hwriter => exact hanswered.write rfl rfl rfl rfl fun h => ⟨h, rfl⟩
  | fails | opens | introduces | begins =>
    exact hanswered.write rfl rfl rfl rfl fun _ => ⟨rfl, rfl⟩
  | abandons => exact hanswered.write rfl rfl rfl rfl nofun
  | asks hidle => exact hanswered.still rfl rfl fun h => ⟨h, rfl⟩
  | leaves | strands | hangsUp => exact hanswered.still rfl rfl nofun

/-- **Every confirmation has its own message of the peer.**  If the owner sends none, then at every
moment no more confirmations have been sent in a session than the peer has asked for by its
introductions, and listeners have been told no more often than the peer has confirmed.  Between
two acts they have been told as often; and as long as the session reads, as many confirmations
have been sent. -/
theorem after_balanced {config : Config} {supply : IdSupply} {dice : Dice} {acts : List Act}
    (hproper : (Connection.new config supply dice).Proper (· ≠ .verack) acts) :
    let c := (Connection.new config supply dice).after acts
    (∀ before, before <+: c.journal → Balanced config before) ∧
      howOften Entry.tellsReady c.journal = howOften Entry.isConfirmed c.journal ∧
      ∀ intake, c.task = .reading intake →
        howOften Entry.confirms c.journal = howOften (Entry.asks config) c.journal := by
  have hnew : Answered config .idle (.new config supply dice) := ⟨rfl, .nil _, rfl, nofun⟩
  have hsteps := after_steps hproper (new_fits config supply dice)
  have hafter := hsteps.keep
    (fun d c => stageAfter c.journal = c.session.stage ∧ Answered config d c)
    (fun hstep h => ⟨hstep.stageAfter_journal h.1, hstep.answered h.1 h.2⟩) ⟨rfl, hnew⟩
  obtain ⟨-, hanswered⟩ := hafter
  refine ⟨?_, hanswered.told, ?_⟩
  · intro before hfront
    exact (hanswered.kept.of_prefix hfront).balanced
  · intro intake htask
    have hsent := hanswered.sent
    rw [htask] at hsent
    exact hsent rfl

/-- A peer introduces itself and confirms, and does both again. -/
def insistence : List Frame.Packet :=
  [⟨"version", namedVersion.pieces.flatten⟩, ⟨"verack", []⟩,
    ⟨"version", namedVersion.pieces.flatten⟩, ⟨"verack", []⟩]

/-- A new connection is opened to such a peer. -/
def insistentActs : List Act :=
  [.connect default {} 0,
    .turn (.deliver (Frame.stream Network.mainnet.magic insistence) none)]

/-- A peer that does everything twice gets two confirmations, and listeners are told twice. -/
theorem after_balanced_of_insistence :
    let acts := insistentActs ++ [.turn (.send (.ping ⟨none⟩)), .disconnect]
    let c := (Connection.new {} ⟨1⟩ ⟨0⟩).after acts
    (Connection.new {} ⟨1⟩ ⟨0⟩).Proper (· ≠ .verack) acts ∧
      (∀ before, before <+: c.journal → Balanced {} before) ∧
      howOften Entry.tellsReady c.journal = howOften Entry.isConfirmed c.journal := by
  have hproper : (Connection.new {} ⟨1⟩ ⟨0⟩).Proper (· ≠ .verack)
      (insistentActs ++ [.turn (.send (.ping ⟨none⟩)), .disconnect]) :=
    ⟨trivial, trivial, nofun, trivial, trivial⟩
  obtain ⟨hbalanced, htold, -⟩ := after_balanced hproper
  exact ⟨hproper, hbalanced, htold⟩

/-- The four messages are read one after the other, and nothing of the stream is left. -/
theorem drain_insistence :
    Frame.drain Network.mainnet.magic (Frame.stream Network.mainnet.magic insistence) =
      ⟨[.version namedVersion, .verack, .version namedVersion, .verack], none, []⟩ := by
  have hfits (p : Frame.Packet) (hp : p ∈ insistence) : p.Fits := by
    simp only [insistence, List.mem_cons, List.not_mem_nil, or_false] at hp
    obtain rfl | rfl | rfl | rfl := hp <;> exact ⟨by decide, by decide, by decide⟩
  have hversion : Message.decode "version" namedVersion.pieces.flatten = _ :=
    Message.decode_of_parses rfl ((Version.parses_pieces .little (v := namedVersion) (by decide)
      (by decide)).map Message.version)
  exact Frame.drain_whole rfl hfits (.cons hversion (.cons rfl (.cons hversion (.cons rfl .nil))))

/-- The four frames are less than a reader takes at once. -/
theorem length_insistence : (Frame.stream Network.mainnet.magic insistence).length = 276 := by
  have hmagic : Network.mainnet.magic.length = 4 := rfl
  rw [Frame.length_stream hmagic]
  decide

/-- A new connection when its link is open and the peer is greeted waits for the first bytes. -/
theorem new_begun_fresh : ((Connection.new {} ⟨1⟩ ⟨0⟩).begun {}).Fresh := ⟨rfl, rfl, rfl, rfl, rfl⟩

theorem new_connect_begun : (Connection.new {} ⟨1⟩ ⟨0⟩).connect default {} 0 =
    ((Connection.new {} ⟨1⟩ ⟨0⟩).begun {}, .done) :=
  connect_begun rfl rfl new_begun_fresh

/-- What such a peer says is handled at once, as it comes in one portion. -/
theorem deliver_insistence : ∃ intake,
    ((Connection.new {} ⟨1⟩ ⟨0⟩).begun {}).deliver
        (Frame.stream Network.mainnet.magic insistence) none =
      (((Connection.new {} ⟨1⟩ ⟨0⟩).begun {}).proceed
        ⟨[.version namedVersion, .verack, .version namedVersion, .verack], none,
          intake⟩).readEnding := by
  have hlength := length_insistence
  obtain ⟨intake, -, hdelivered⟩ := new_begun_fresh.deliver_first drain_insistence
    (List.ne_nil_of_length_pos (by omega)) (by omega)
  exact ⟨intake, hdelivered⟩

/-- A peer that says everything twice is sent two confirmations in one session, and listeners are
told twice that it has confirmed. -/
theorem confirmed_twice :
    let c := (Connection.new {} ⟨1⟩ ⟨0⟩).after insistentActs
    howOften Entry.confirms c.journal = 2 ∧ howOften Entry.tellsReady c.journal = 2 := by
  obtain ⟨intake, hdelivered⟩ := deliver_insistence
  rw [insistentActs, after_connect_deliver, new_connect_begun]
  dsimp only
  rw [hdelivered]
  exact ⟨rfl, rfl⟩

end LightPeer
