import LightPeer.Proofs.Frame.Splitting
import LightPeer.Proofs.Session.Changes

/-!
# What is replied to a row of messages

Every message of the peer has its replies, and these depend on the messages in front of it in one
respect only: once a filter was handed over, blocks are asked for in the form that fits it.  A
reply that the peer does not take is not lost, it waits as bytes or as a message.  So what the
peer has taken, what goes out and what waits are together the frames of all replies, in the order
of the messages.

The list of addresses must not change meanwhile, and no failure be reported; the journal tells
both (`Smooth`).

* `Exchange`, `Due` — the replies to a row of messages;
* `Conveyed`, `transmit_conveyed` — what becomes of a message that does not fail;
* `Smooth.watched_eq`, `Smooth.not_abandoned` — what the journal excludes;
* `Spoken.handle` — one message is replied to;
* `Spoken.dispatch` — a row of messages is replied to.
-/

namespace LightPeer

open Connection

variable {own : Int32} {watched : List Watched} {ms done : List Message} {m : Message}
variable {replies new : List Outgoing}

/-- Whether one of the objects is asked for. -/
def announces (entries : List Inventory) : Bool :=
  entries.any fun entry => entry.kind = .tx || entry.kind = .block

/-- The replies that a message has, with this version on our side, while these addresses are
watched, and with a filter in the hands of the peer or not. -/
def Due (own : Int32) (watched : List Watched) (filtered : Bool) :
    Message → List Outgoing → Prop
  | .version v, replies =>
    replies = if confirmedSince ≤ min v.version own then [.verack] else []
  | .verack, replies =>
    if watched = [] then replies = []
    else ∃ rate tweak update, replies = [filterMessage watched rate tweak update]
  | .ping p, replies => replies = p.nonce.toList.map fun nonce => .pong ⟨nonce⟩
  | .inv entries, replies =>
    replies = if announces entries then [.getData (wanted filtered entries)] else []
  | .tx _, replies => replies = []
  | .block _, replies => replies = []
  | .merkleBlock _, replies => replies = []

/-- Whether a filter is in the hands of the peer after these messages. -/
def filteredAfter (watched : List Watched) (ms : List Message) : Bool :=
  watched ≠ [] && .verack ∈ ms

/-- These are the replies to a row of messages, in the order of the messages. -/
inductive Exchange (own : Int32) (watched : List Watched) : List Message → List Outgoing → Prop
  | nil : Exchange own watched [] []
  | snoc {ms : List Message} {replies new : List Outgoing} {m : Message}
      (h : Exchange own watched ms replies)
      (hdue : Due own watched (filteredAfter watched ms) m new) :
      Exchange own watched (ms ++ [m]) (replies ++ new)

/-- The version that is agreed on after a message: the lesser of both sides' versions, once the
peer has told its own. -/
def Message.agreed (own : Int32) (known : Option Int32) : Message → Option Int32
  | .version v => some (min v.version own)
  | _ => known

/-- The version that is agreed on after a row of messages. -/
def negotiated (own : Int32) (ms : List Message) : Option Int32 :=
  ms.foldl (Message.agreed own) none

/-- The last introduction of the peer is the one that counts. -/
theorem negotiated_snoc (own : Int32) (ms : List Message) (m : Message) :
    negotiated own (ms ++ [m]) = m.agreed own (negotiated own ms) := by
  rw [negotiated, List.foldl_append]
  rfl

/-- Once a filter has been handed over the peer has one, until the session ends. -/
theorem filteredAfter_snoc (watched : List Watched) (ms : List Message) (m : Message) :
    filteredAfter watched (ms ++ [m]) =
      (filteredAfter watched ms || (watched ≠ [] && m = .verack)) := by
  simp only [filteredAfter, List.mem_append, List.mem_singleton, Bool.decide_or,
    Bool.and_or_distrib_left, eq_comm]

/-- Something is asked for if and only if a transaction or a block was announced, with a filter or
without. -/
theorem isEmpty_wanted (filtered : Bool) (entries : List Inventory) :
    (wanted filtered entries).isEmpty = ! announces entries := by
  induction entries with
  | nil => rfl
  | cons entry entries ih =>
    rw [wanted, List.filterMap_cons, announces, List.any_cons, ← announces]
    cases entry.kind <;> first | rfl | exact ih

/-- **Replies fit into frames**, if the messages did.  Only a request could grow with a message, and
it is no longer than the announcement. -/
theorem Due.fits {filtered : Bool} (h : Due own watched filtered m new) (hm : m.Fits) :
    ∀ reply ∈ new, reply.Fits := by
  intro reply hreply
  cases m with
  | version v =>
    rw [Due] at h
    split at h <;> subst h <;> cases hreply
    · exact Nat.zero_le _
    · contradiction
  | verack =>
    rw [Due] at h
    split at h
    · subst h
      cases hreply
    · obtain ⟨rate, tweak, update, rfl⟩ := h
      rw [List.mem_singleton.mp hreply]
      exact Outgoing.fits_filterMessage watched rate tweak update
  | ping p =>
    obtain ⟨nonce, -, rfl⟩ := List.mem_map.mp (h ▸ hreply)
    show ([Bytes.ofNat .little 8 nonce.toNat].flatten).length ≤ Frame.maxPayload
    rw [List.flatten_singleton, Bytes.length_ofNat]
    decide
  | inv entries =>
    rw [Due] at h
    split at h <;> subst h
    · rw [List.mem_singleton.mp hreply]
      exact Message.Fits.wanted hm filtered
    · cases hreply
  | _ =>
    rw [Due] at h
    subst h
    cases hreply

/-- To no message there is no reply, as nothing is sent but for a message. -/
theorem Exchange.eq_nil (h : Exchange own watched [] replies) : replies = [] := by
  generalize hall : [] = all at h
  cases h with
  | nil => rfl
  | snoc => cases List.append_ne_nil_of_right_ne_nil _ (List.cons_ne_nil _ []) hall.symm

/-- The replies to the last message come last. -/
theorem Exchange.exists_of_snoc (h : Exchange own watched (ms ++ [m]) replies) :
    ∃ before new, replies = before ++ new ∧ Exchange own watched ms before ∧
      Due own watched (filteredAfter watched ms) m new := by
  generalize hall : ms ++ [m] = all at h
  cases h with
  | nil => cases List.append_ne_nil_of_right_ne_nil ms (List.cons_ne_nil m []) hall
  | @snoc ms' before new m' h hdue =>
    obtain ⟨rfl, hlast⟩ := List.append_inj' hall rfl
    cases hlast
    exact ⟨before, new, rfl, h, hdue⟩

/-- Whatever the peer sends, a reply has a form in which it can be written: what is asked for are
some of the entries that were announced, and no more. -/
theorem Exchange.fits (h : Exchange own watched ms replies) (hms : ∀ m ∈ ms, m.Fits) :
    ∀ reply ∈ replies, reply.Fits := by
  induction h with
  | nil => exact nofun
  | snoc h hdue ih =>
    obtain ⟨hms, hm⟩ := List.forall_mem_append.mp hms
    exact List.forall_mem_append.mpr ⟨ih hms, hdue.fits (hm _ List.mem_cons_self)⟩

/-- The messages that do not stand among the bytes yet. -/
def Progress.unsent : Progress → List Outgoing
  | .blocked unsent => unsent.toList
  | _ => []

/-- Whether a filter waits that answers this message. -/
def Progress.loads (m : Message) : Progress → Bool
  | .blocked _ => m = .verack
  | _ => false

namespace Connection

variable {c c' first : Connection} {progress : Progress} {final : List Entry}

/-- These messages have been handed over: their frames have come behind the bytes that go out, but
for what waits as a message. -/
structure Conveyed (ms : List Outgoing) (c c' : Connection) (progress : Progress) : Prop where
  bytes : c'.outflow ++ Frame.row c.config.network.magic progress.unsent =
    c.outflow ++ Frame.row c.config.network.magic ms
  emptied : progress = .done → c'.writer = some []

/-- To write what is still to be written hands over no message. -/
theorem flush_conveyed (c : Connection) : Conveyed [] c c.flush.1 c.flush.2 := by
  have hunsent : c.flush.2.unsent = [] := by
    cases hprogress : c.flush.2 with
    | blocked unsent =>
      rw [flush_blocked hprogress]
      rfl
    | _ => rfl
  refine ⟨?_, flush_done⟩
  rw [hunsent, outflow_flush]

/-- A message that does not fail has come among the bytes that go out. -/
theorem push_conveyed (m : Outgoing) (hnot : ∀ cause, (c.push m).2 ≠ .failed cause) :
    Conveyed [m] c (c.push m).1 (c.push m).2 := by
  unfold push at hnot ⊢
  cases hwriter : c.writer with
  | none =>
    rw [hwriter] at hnot
    exact absurd rfl (hnot _)
  | some pending =>
    let filled : Connection := { c.record (.sent m) with writer := some (pending ++ c.frame m) }
    obtain ⟨hbytes, hemptied⟩ : Conveyed [] filled filled.flush.1 filled.flush.2 :=
      flush_conveyed filled
    have hfilled : filled.outflow = c.outflow ++ c.frame m := by
      rw [outflow, outflow, hwriter]
      exact (List.append_assoc ..).symm
    refine ⟨hbytes.trans ?_, hemptied⟩
    rw [hfilled, List.append_assoc, Frame.row_singleton]
    exact congrArg (c.outflow ++ ·) (List.append_nil _)

/-- **A message that does not fail is among the bytes, or waits.** -/
theorem transmit_conveyed (m : Outgoing) (hnot : ∀ cause, (c.transmit m).2 ≠ .failed cause) :
    Conveyed [m] c (c.transmit m).1 (c.transmit m).2 := by
  have hbytes := c.outflow_flush
  have hconfig := c.flush_wrote.config
  unfold transmit at hnot ⊢
  split at hnot
  · next hfull =>
    rw [if_pos hfull]
    split at hnot
    · next flushed hdone =>
      rw [hdone] at hbytes hconfig
      obtain ⟨hpushed, hemptied⟩ := push_conveyed m hnot
      refine ⟨?_, hemptied⟩
      rw [← hbytes, ← hconfig]
      exact hpushed
    · next hblocked =>
      rw [hblocked] at hbytes
      exact ⟨congrArg (· ++ _) hbytes, nofun⟩
    · exact absurd rfl (hnot _)
  · next hroom =>
    rw [if_neg hroom]
    exact push_conveyed m hnot

/-- A reply that waits goes on as it stands:  it is not made anew when the peer takes bytes
again. -/
theorem carryOn_conveyed (unsent : Option Outgoing)
    (hnot : ∀ cause, (c.carryOn unsent).2 ≠ .failed cause) :
    Conveyed unsent.toList c (c.carryOn unsent).1 (c.carryOn unsent).2 := by
  cases unsent with
  | none => exact flush_conveyed c
  | some m => exact transmit_conveyed m hnot

/-- To send a message tells the session nothing, whatever becomes of the message. -/
theorem session_transmit (m : Outgoing) (c : Connection) :
    (c.transmit m).1.session = c.session := by
  rcases transmit_cases m c with ⟨haside, _⟩ | ⟨⟨between, hbefore, _, hafter⟩, _⟩
  · exact haside.session
  · exact hafter.session.trans hbefore.session

/-- Nor does a reply that goes on, even when it is sent to its end. -/
theorem session_carryOn (unsent : Option Outgoing) (c : Connection) :
    (c.carryOn unsent).1.session = c.session := by
  cases unsent with
  | none => exact (flush_aside c).session
  | some m => exact session_transmit m c

/-- A filter that does not fail has been noted, or waits. -/
theorem transmitFilter_conveyed (hfilter : c.hasFilter)
    (hnot : ∀ cause, c.transmitFilter.2 ≠ .failed cause) :
    Conveyed [.filterLoad c.nextFilter] c c.transmitFilter.1 c.transmitFilter.2 ∧
      c.transmitFilter.1.session.version = c.session.version ∧
      (c.transmitFilter.1.session.filterLoaded || c.transmitFilter.2.loads .verack) = true := by
  by_cases htakes : c.TakesFilter
  · rw [transmitFilter_eq htakes hfilter] at hnot ⊢
    have hconveyed := transmit_conveyed (c := { c with dice := c.dice.roll.2 })
      (.filterLoad c.nextFilter) hnot
    have hsession := session_transmit (.filterLoad c.nextFilter) { c with dice := c.dice.roll.2 }
    dsimp only at hnot ⊢
    generalize Connection.transmit _ _ = sent at hnot hconveyed hsession ⊢
    obtain ⟨c', progress⟩ := sent
    have hbytes := hconveyed.bytes
    rw [outflow_dice c c.dice.roll.2] at hbytes
    have hversion := congrArg Session.version hsession
    dsimp only at hbytes hversion ⊢
    cases progress with
    | done =>
      rw [← outflow_markLoaded] at hbytes
      rw [if_pos rfl]
      exact ⟨⟨hbytes, hconveyed.emptied⟩, hversion, rfl⟩
    | blocked unsent =>
      rw [if_neg nofun]
      exact ⟨⟨hbytes, hconveyed.emptied⟩, hversion, Bool.or_true _⟩
    | failed cause => exact absurd rfl (hnot cause)
  · obtain ⟨cause, hrefused⟩ := transmitFilter_refused htakes
    rw [hrefused] at hnot
    exact absurd rfl (hnot cause)

/-- Two lists with the same addresses have the same hashes, so they are the same. -/
theorem watched_eq_of_hashed {watched watched' : List Watched}
    (h : ∀ w ∈ watched, Address.hash w.address = .ok w.hash)
    (h' : ∀ w ∈ watched', Address.hash w.address = .ok w.hash)
    (hlist : watched'.map Watched.address = watched.map Watched.address) : watched' = watched := by
  induction watched generalizing watched' with
  | nil => exact List.map_eq_nil_iff.mp hlist
  | cons w watched ih =>
    obtain ⟨w', rest, rfl, haddress, hrest⟩ := List.map_eq_cons_iff.mp hlist
    obtain ⟨hw, h⟩ := List.forall_mem_cons.mp h
    obtain ⟨hw', h'⟩ := List.forall_mem_cons.mp h'
    have hhash : w'.hash = w.hash := by
      rw [haddress, hw] at hw'
      exact (Except.ok.inj hw').symm
    rw [ih h h' hrest]
    obtain ⟨address, hash⟩ := w
    obtain ⟨address', hash'⟩ := w'
    cases haddress
    cases hhash
    rfl

/-- From `first` the connection has come to `c`, and the journal has grown. -/
structure Carried (first c : Connection) : Prop where
  config : c.config = first.config
  origin : first.Watchful
  watchful : c.Watchful
  journal : first.journal <+: c.journal

theorem Carried.refl (h : first.Watchful) : first.Carried first :=
  ⟨rfl, h, h, List.prefix_refl _⟩

/-- A row of steps carries a connection further. -/
theorem Carried.steps {allowed : Outgoing → Prop} {d d' : Duty} (h : first.Carried c)
    (hsteps : Steps allowed (d, c) (d', c')) : first.Carried c' where
  config := hsteps.config.trans h.config
  origin := h.origin
  watchful := hsteps.watchful h.watchful
  journal := h.journal.trans hsteps.journal_extends

/-- So does an aside, which neither the settings of the peer nor the link are changed by. -/
theorem Carried.aside (h : first.Carried c) (haside : c.Aside c') : first.Carried c' := by
  have hstep : Step (fun _ => True) (.idle, c) (.idle, c') := .aside haside
  exact h.steps (.single hstep)

/-- Behind the entries of `first` a journal tells of no change to the list of addresses, and of no
failure of the session. -/
structure Smooth (first : Connection) (final : List Entry) : Prop where
  watching : ∀ before, first.journal <+: before → before <+: final →
    watchedAfter before = first.filterList
  calm : ∀ peer cause, .noticed (.sessionFailed peer cause) ∉ final.drop first.journal.length

/-- What is watched has not changed. -/
theorem Smooth.watched_eq (hsmooth : Smooth first final) (h : first.Carried c)
    (hfinal : c.journal <+: final) : c.watched = first.watched :=
  watched_eq_of_hashed h.origin.hashed h.watchful.hashed
    (h.watchful.told.watching.symm.trans (hsmooth.watching _ h.journal hfinal))

/-- The session has not failed, for the journal that it has come to has no entry that says so. -/
theorem Smooth.not_abandoned (hsmooth : Smooth first final) (h : first.Carried c)
    (cause : SessionError) : ¬ (c.abandon cause).journal <+: final := by
  intro hfinal
  obtain ⟨added, hadded⟩ := h.journal
  -- A session that fails writes so down first, and all that follows comes behind.
  let failure : Entry := .noticed (.sessionFailed c.session.peer cause)
  have hgrows : (c.journal ++ [failure]) <+: (c.abandon cause).journal :=
    (conclude_changes (c.record failure)).journal_extends
  obtain ⟨more, hmore⟩ := hgrows.trans hfinal
  refine hsmooth.calm c.session.peer cause ?_
  rw [← hmore, ← hadded, List.append_assoc, List.append_assoc, List.drop_left]
  exact List.mem_append_right _ (List.mem_append_left _ List.mem_cons_self)

/-- These bytes are the frames of the greeting `hello` and of the replies to a row of messages. -/
def Transcript (first : Connection) (hello : Outgoing) (done : List Message) (bs : Bytes) : Prop :=
  ∃ replies, Exchange first.config.protocolVersion first.watched done replies ∧
    bs = Frame.row first.config.network.magic (hello :: replies)

/-- A row of messages has been replied to, behind the greeting `hello`.  What the peer has taken,
what goes out and what waits are the frames of the greeting and the replies.  The last reply may
still be on its way, and it is noted when a filter has gone out. -/
structure Spoken (first : Connection) (hello : Outgoing) (gone : Bytes) (done : List Message)
    (progress : Progress) (loading : Bool) (c : Connection) : Prop where
  carried : first.Carried c
  version : c.session.version = negotiated first.config.protocolVersion done
  filtered : (c.session.filterLoaded || loading) = filteredAfter first.watched done
  emptied : progress = .done → c.writer = some []
  bytes : first.Transcript hello done
    (gone ++ c.outflow ++ Frame.row first.config.network.magic progress.unsent)

/-- What a message says of the session is noted, and nothing is written. -/
structure Noted (m : Message) (c c' : Connection) : Prop where
  config : c'.config = c.config
  outflow : c'.outflow = c.outflow
  writer : c'.writer = c.writer
  version : c'.session.version = m.agreed c.config.protocolVersion c.session.version
  filtered : c'.session.filterLoaded = c.session.filterLoaded

/-- What was noted first and then handed over has been handed over. -/
theorem Noted.conveyed {c'' : Connection} (h : Noted m c c') (hnew : Conveyed new c' c'' progress) :
    Conveyed new c c'' progress := by
  have hbytes := hnew.bytes
  rw [h.outflow, h.config] at hbytes
  exact ⟨hbytes, hnew.emptied⟩

/-- Where a message says nothing of a version, telling its event notes all that there is to note,
and nothing is written. -/
theorem emit_noted (kind : ListenerKind) (event : kind.Event)
    (h : ∀ known, m.agreed c.config.protocolVersion known = known) :
    Noted m c (emit kind event c) := by
  have hsame := emit_undisturbed kind event c
  have hconfig := (emit_aside kind event c).config
  refine ⟨hconfig, ?_, hsame.writer, ?_, ?_⟩
  · rw [outflow, hsame.link, hsame.writer, outflow]
  · rw [hsame.session, h]
  · rw [hsame.session]

section
variable {hello : Outgoing} {gone : Bytes} {loading : Bool}

/-- The replies to one more message come behind the others. -/
theorem Spoken.snoc (h : Spoken first hello gone done .done false c)
    (hcarried : first.Carried c')
    (hversion : c'.session.version = m.agreed c.config.protocolVersion c.session.version)
    (hfiltered : (c'.session.filterLoaded || loading) =
      (c.session.filterLoaded || (first.watched ≠ [] && m = .verack)))
    (hdue : Due first.config.protocolVersion first.watched (filteredAfter first.watched done) m new)
    (hconveyed : Conveyed new c c' progress) :
    Spoken first hello gone (done ++ [m]) progress loading c' := by
  obtain ⟨replies, hexchange, hbytes⟩ := h.bytes
  have hloaded := h.filtered
  have hnew := hconveyed.bytes
  rw [Bool.or_false] at hloaded
  rw [h.carried.config] at hnew
  refine ⟨hcarried, ?_, ?_, hconveyed.emptied, replies ++ new, hexchange.snoc hdue, ?_⟩
  · rw [hversion, negotiated_snoc, h.version, h.carried.config]
  · rw [hfiltered, filteredAfter_snoc, hloaded]
  · rw [← List.cons_append, Frame.row_append, ← hbytes, List.append_assoc, hnew]
    show gone ++ (c.outflow ++ _) = gone ++ c.outflow ++ [] ++ _
    rw [List.append_nil, List.append_assoc]

/-- What comes of a message: unless it fails, it is replied to as well. -/
def Replied (first : Connection) (hello : Outgoing) (gone : Bytes) (done : List Message)
    (final : List Entry) (m : Message) (result : Connection × Progress) : Prop :=
  first.Carried result.1 → result.1.journal <+: final → (∀ cause, result.2 ≠ .failed cause) →
    Spoken first hello gone (done ++ [m]) result.2 (result.2.loads m) result.1

/-- A message that has no reply. -/
theorem Spoken.pass (h : Spoken first hello gone done .done false c) (hnoted : Noted m c c')
    (hm : m = .verack → first.watched = [])
    (hdue : Due first.config.protocolVersion first.watched (filteredAfter first.watched done) m
      []) :
    Replied first hello gone done final m (c', .done) := by
  intro hcarried _ _
  have hnothing : Conveyed [] c c' .done :=
    ⟨congrArg (· ++ []) hnoted.outflow, fun _ => hnoted.writer.trans (h.emptied rfl)⟩
  refine h.snoc hcarried hnoted.version ?_ hdue hnothing
  rw [hnoted.filtered]
  simpa [Progress.loads] using fun hsome hlast => absurd (hm hlast) hsome

/-- A message whose reply is handed over:  the reply goes out behind those to the messages before
it. -/
theorem Spoken.transmit {reply : Outgoing} (h : Spoken first hello gone done .done false c)
    (hnoted : Noted m c c') (hm : m ≠ .verack)
    (hdue : Due first.config.protocolVersion first.watched (filteredAfter first.watched done) m
      [reply]) :
    Replied first hello gone done final m (c'.transmit reply) := by
  intro hcarried _ hnot
  have hsession := session_transmit reply c'
  have hloads : (c'.transmit reply).2.loads m = false := by
    cases (c'.transmit reply).2 <;> simp [Progress.loads, hm]
  refine h.snoc hcarried ?_ ?_ hdue (hnoted.conveyed (transmit_conveyed reply hnot))
  · rw [hsession, hnoted.version]
  · rw [hsession, hnoted.filtered, hloads]
    simp [hm]

/-- The end of the handshake is answered by a filter, if something is watched. -/
theorem Spoken.verack (hsmooth : Smooth first final)
    (h : Spoken first hello gone done .done false c) :
    Replied first hello gone done final .verack (c.record (.received .verack)).onVerack := by
  let told := emit .connection .verack ((c.record (.received .verack)).enter .ready)
  have hheard : Step (fun _ => True) (.working, c) (.handling .verack, c.heed .verack) :=
    .hears .verack
  have htold : first.Carried told :=
    (h.carried.steps (.single hheard)).aside (emit_aside .connection .verack _)
  have hemitted : Noted .verack ((c.record (.received .verack)).enter .ready) told :=
    emit_noted .connection .verack fun _ => rfl
  have hnoted : Noted .verack c told :=
    ⟨hemitted.config, hemitted.outflow, hemitted.writer, hemitted.version, hemitted.filtered⟩
  show Replied first hello gone done final .verack
    (if told.hasFilter then told.transmitFilter else (told, .done))
  have hfilter (hfinal : told.journal <+: final) :
      told.hasFilter = true ↔ first.watched ≠ [] := by
    rw [hasFilter, hsmooth.watched_eq htold hfinal, Bool.not_eq_true', List.isEmpty_eq_false_iff]
  intro hcarried hfinal hnot
  split at hcarried
  · next hsome =>
    rw [if_pos hsome] at hfinal hnot ⊢
    -- The filter is made before it is sent, so the list has to be known where the event was told.
    obtain ⟨entries, hentries, _⟩ := (transmitFilter_wrote told).journal
    have hbefore : told.journal <+: final := by
      rw [hentries] at hfinal
      exact (List.prefix_append ..).trans hfinal
    have hwatched := (hfilter hbefore).mp hsome
    obtain ⟨hconveyed, hversion, hloaded⟩ := transmitFilter_conveyed hsome hnot
    refine h.snoc hcarried ?_ ?_ ?_ (hnoted.conveyed hconveyed)
    · rw [hversion, hnoted.version]
    · rw [hloaded]
      simp [hwatched]
    · rw [Due, if_neg hwatched, ← hsmooth.watched_eq htold hbefore]
      exact ⟨_, _, _, rfl⟩
  · next hnone =>
    rw [if_neg hnone] at hfinal hnot ⊢
    have hwatched : first.watched = [] := by
      simpa using mt (hfilter hfinal).mpr hnone
    exact h.pass hnoted (fun _ => hwatched) (by rw [Due, if_pos hwatched]) hcarried
      hfinal hnot

/-- **A message is replied to as it has to be**, or its handling fails.  The reply to the last
message has been written by then, so that this one comes right behind it. -/
theorem Spoken.handle (hsmooth : Smooth first final) (m : Message)
    (h : Spoken first hello gone done .done false c) :
    Replied first hello gone done final m ((c.record (.received m)).handle m) := by
  have hheard (hm : ∀ known, m.agreed c.config.protocolVersion known = known) :
      Noted m c (c.record (.received m)) := ⟨rfl, rfl, rfl, (hm _).symm, rfl⟩
  have htold (kind : ListenerKind) (event : kind.Event)
      (hm : ∀ known, m.agreed c.config.protocolVersion known = known) :
      Noted m c (emit kind event (c.record (.received m))) := by
    have hemitted := emit_noted (c := c.record (.received m)) kind event hm
    exact ⟨hemitted.config, hemitted.outflow, hemitted.writer, hemitted.version,
      hemitted.filtered⟩
  cases m with
  | version v =>
    have hmet : Noted (.version v) c ((c.record (.received (.version v))).meet v) :=
      ⟨rfl, rfl, rfl, rfl, rfl⟩
    have hconfig : (c.record (.received (.version v))).config = first.config := h.carried.config
    show Replied first hello gone done final _ ((c.record (.received (.version v))).onVersion v)
    rw [onVersion_eq, hconfig]
    split
    · next hold => exact h.transmit hmet nofun (by rw [Due, if_pos hold])
    · next hold => exact h.pass hmet nofun (by rw [Due, if_neg hold])
  | verack => exact h.verack hsmooth
  | ping p =>
    show Replied first hello gone done final _ ((c.record (.received (.ping p))).onPing p)
    unfold onPing
    split
    · next nonce hnonce =>
      exact h.transmit (hheard fun _ => rfl) nofun (by rw [Due, hnonce]; rfl)
    · next hnonce => exact h.pass (hheard fun _ => rfl) nofun (by rw [Due, hnonce]; rfl)
  | inv entries =>
    have hloaded := h.filtered
    rw [Bool.or_false] at hloaded
    show Replied first hello gone done final _
      ((c.record (.received (.inv entries))).onInventory entries)
    unfold onInventory
    show Replied first hello gone done final _
      (if (wanted c.session.filterLoaded entries).isEmpty then _
        else Connection.transmit (.getData (wanted c.session.filterLoaded entries)) _)
    rw [isEmpty_wanted, hloaded]
    cases hannounces : announces entries with
    | true =>
      exact h.transmit (hheard fun _ => rfl) nofun (by rw [Due, hannounces]; rfl)
    | false => exact h.pass (hheard fun _ => rfl) nofun (by rw [Due, hannounces]; rfl)
  | tx t => exact h.pass (htold .transaction t fun _ => rfl) nofun rfl
  | block b => exact h.pass (htold .block (.full b) fun _ => rfl) nofun rfl
  | merkleBlock b =>
    show Replied first hello gone done final _
      ((c.record (.received (.merkleBlock b))).onMerkleBlock b)
    unfold onMerkleBlock
    split
    · intro _ _ hnot
      exact absurd rfl (hnot _)
    · next block hblock => exact h.pass (htold .block (.filtered block) fun _ => rfl) nofun rfl

/-- Where the handling of messages `ms` has stopped, which stand behind those that were done. -/
def Halted (first : Connection) (hello : Outgoing) (gone : Bytes) (done ms : List Message) :
    Connection × Stop → Prop
  | (c, .handled) => Spoken first hello gone (done ++ ms) .done false c
  | (c, .blocked unsent rest loading) =>
    ∃ now, ms = now ++ rest ∧ Spoken first hello gone (done ++ now) (.blocked unsent) loading c
  | (c, .failed _) => first.Carried c

/-- A row of messages that stops behind its first one has stopped where the rest of it has. -/
theorem Halted.cons {result : Connection × Stop}
    (h : Halted first hello gone (done ++ [m]) ms result) :
    Halted first hello gone done (m :: ms) result := by
  obtain ⟨c, _ | ⟨unsent, rest, loading⟩ | cause⟩ := result
  · rw [Halted, List.append_cons]
    exact h
  · obtain ⟨now, rfl, hspoken⟩ := h
    refine ⟨m :: now, rfl, ?_⟩
    rw [List.append_cons]
    exact hspoken
  · exact h

/-- **A row of messages is replied to**, as far as it comes. -/
theorem Spoken.dispatch (hsmooth : Smooth first final) (ms : List Message)
    (h : Spoken first hello gone done .done false c)
    (hfinal : (Connection.dispatch ms c).1.journal <+: final) :
    Halted first hello gone done ms (Connection.dispatch ms c) := by
  induction ms generalizing c done with
  | nil =>
    show Spoken first hello gone (done ++ []) .done false c
    rw [List.append_nil]
    exact h
  | cons m ms ih =>
    obtain ⟨d, -, hsteps⟩ := handle_answers (fun _ => True) m c
    have hcarried := h.carried.steps (hsteps.head (.hears m))
    have hreplied : Replied first hello gone done final m ((c.record (.received m)).handle m) :=
      h.handle hsmooth m
    rw [Connection.dispatch] at hfinal ⊢
    rcases hm : (c.record (.received m)).handle m with ⟨c', progress⟩
    rw [hm] at hcarried hreplied hfinal
    cases progress with
    | done =>
      -- What was written down after this message is the beginning of what is written down at last.
      obtain ⟨d, -, hrest⟩ := dispatch_steps (fun _ => True) ms c'
      have hbefore := hrest.journal_extends.trans hfinal
      have hspoken := hreplied hcarried hbefore (by simp)
      exact (ih hspoken hfinal).cons
    | blocked unsent => exact ⟨[m], rfl, hreplied hcarried hfinal (by simp)⟩
    | failed cause => exact hcarried

end

end Connection

end LightPeer
