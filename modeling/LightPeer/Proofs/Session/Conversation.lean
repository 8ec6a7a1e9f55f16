import LightPeer.Proofs.Session.Confirmations
import LightPeer.Proofs.Session.Kinship
import LightPeer.Proofs.Session.Talking

/-!
# What a peer is sent in a whole session

However the bytes of a session arrive, and however its replies go out, what the peer makes of them
is an introduction, and then the replies to its messages in their order, each in a frame of its
own, and nothing else.

* `play_rested` — a row of turns keeps the invariant of the reader;
* `connect_rested` — a session begins with it;
* `play_replies` — what the peer is sent.
-/

namespace LightPeer

open Connection
open LightPeer.Frame (Drained)
open Wire (int32Bytes int64Bytes varBytesPieces)

variable {first c c' : Connection} {hello : Outgoing} {gone stream : Bytes} {ended : Bool}
variable {final : List Entry}

namespace Connection

/-- The bytes that the peer takes in a row of turns. -/
def taken (c : Connection) : List Turn → Bytes
  | [] => []
  | turn :: turns => turn.taken c ++ (turn.apply c).taken turns

/-- No row of turns takes an entry back. -/
theorem play_keeps_journal (turns : List Turn) (c : Connection) :
    c.journal <+: (c.play turns).journal := by
  induction turns generalizing c with
  | nil => exact List.prefix_refl _
  | cons turn turns ih => exact (turn.apply_keeps_journal c).trans (ih _)

/-- **A row of turns keeps the invariant**, by one turn after another. -/
theorem play_rested {turns : List Turn} (hsmooth : Smooth first (c.play turns).journal)
    (hturns : ∀ turn ∈ turns, turn.IsReserved)
    (hbytes : ∀ turn ∈ turns, ended = true → turn.bytes = [])
    (hends : turns.Pairwise fun a b => a.ends = true → b.bytes = [])
    (h : Rested first hello gone stream ended c) :
    Rested first hello (gone ++ c.taken turns) (stream ++ (turns.map Turn.bytes).flatten)
      (ended || turns.any Turn.ends) (c.play turns) := by
  induction turns generalizing gone stream ended c with
  | nil =>
    rw [taken, List.map_nil, List.flatten_nil, List.append_nil, List.append_nil, List.any_nil,
      Bool.or_false]
    exact h
  | cons turn turns ih =>
    rw [List.pairwise_cons] at hends
    have hturn := turn.apply_rested hsmooth (hturns turn List.mem_cons_self)
      (hbytes turn List.mem_cons_self) h (play_keeps_journal turns _)
    rw [taken, List.map_cons, List.flatten_cons, ← List.append_assoc, ← List.append_assoc,
      List.any_cons, ← Bool.or_assoc]
    refine ih hsmooth (fun t ht => hturns t (List.mem_cons_of_mem _ ht)) ?_ hends.2 hturn
    intro t ht hended
    rcases Bool.or_eq_true_iff.mp hended with hended | hended
    · exact hbytes t (List.mem_cons_of_mem _ ht) hended
    · exact hends.1 t ht hended

/-- How we introduce ourselves depends on the settings and on whether something is watched. -/
theorem introduction_eq (hconfig : c'.config = c.config) (hwatched : c'.watched = c.watched)
    (peer : Endpoint) (now : Int64) (nonce : UInt64) :
    c'.introduction peer now nonce = c.introduction peer now nonce := by
  rw [introduction, introduction, hasFilter, hasFilter, hconfig, hwatched]

/-- The listeners know that the link is open, and what they do at that is an aside, so that the
greeting is what it would have been. -/
theorem Carried.told (peer : Endpoint) (link : Link) (hfirst : first.Watchful)
    (hgone : first.session.stage = .disconnected) :
    first.Carried (emit .connection .connected ((first.claimed peer).attach link)) := by
  have hclaims : Step (fun _ => True) (.idle, first) (.dialling, first.claimed peer) :=
    .claims peer hgone
  have hopened : Steps (fun _ => True) (.idle, first) (.greeting, (first.claimed peer).opened) :=
    (Relation.ReflTransGen.single hclaims).tail .opens
  have hlinked : (first.claimed peer).opened.Aside
      (((first.claimed peer).attach link).record (.emitted (.connection .connected))) :=
    link_aside link _
  exact ((Carried.refl hfirst).steps hopened).aside
    (hlinked.trans (emit_aside .connection .connected _))

/-- A link that is open stays so when the greeting has been written. -/
theorem start_of_done {peer : Endpoint} {link : Link} {now : Int64}
    (hopened : (c.start peer link now).2 = .done) :
    let told := emit .connection .connected (c.attach link)
    let sent := { told with dice := told.dice.roll.2 }.transmit
      (.version (told.introduction peer now told.dice.roll.1))
    sent.2 = .done ∧
      (c.start peer link now).1 = { sent.1.await with task := .reading {} } := by
  unfold start at hopened ⊢
  dsimp only at hopened ⊢
  generalize Connection.transmit _ _ = sent at hopened ⊢
  obtain ⟨c', progress⟩ := sent
  cases progress with
  | done => exact ⟨rfl, rfl⟩
  | blocked unsent => cases hopened
  | failed cause =>
    dsimp only at hopened
    split at hopened <;> cases hopened

/-- A greeting that is written is the first of all messages. -/
theorem Carried.greets (h : first.Carried c) (hwriter : c.writer = some [])
    (hempty : c.link.outbound = []) (hversion : c.session.version = none)
    (hfiltered : c.session.filterLoaded = false) (hdone : (c.transmit hello).2 = .done) :
    Spoken first hello [] [] .done false (c.transmit hello).1 := by
  obtain ⟨d, -, hsteps⟩ := transmit_steps (fun _ => True) false hello c
  have hsession := session_transmit hello c
  obtain ⟨hbytes, hemptied⟩ := transmit_conveyed (c := c) hello (by rw [hdone]; nofun)
  rw [hdone, h.config] at hbytes
  refine ⟨h.steps hsteps, ?_, ?_, fun _ => hemptied hdone, [], .nil, ?_⟩
  · rw [hsession]
    exact hversion
  · rw [hsession, hfiltered]
    simp [filteredAfter]
  · rw [List.nil_append]
    refine hbytes.trans ?_
    rw [outflow, hempty, hwriter]
    rfl

/-- A session begins with its introduction, which is the first of the bytes that the peer gets. -/
theorem start_talking (hsmooth : Smooth first final) {peer : Endpoint} {link : Link} {now : Int64}
    (hfirst : first.Watchful) (hgone : first.session.stage = .disconnected)
    (hempty : link.outbound = [])
    (hopened : ((first.claimed peer).start peer link now).2 = .done)
    (hfinal : ((first.claimed peer).start peer link now).1.journal <+: final) :
    ∃ nonce, Talking first (.version (first.introduction peer now nonce)) [] link.inbound
      link.ending.isSome link.inbound ((first.claimed peer).start peer link now).1 := by
  obtain ⟨hdone, hstarted⟩ := start_of_done hopened
  have htold : first.Carried _ := Carried.told peer link hfirst hgone
  have hsame := emit_undisturbed .connection .connected
    ((first.claimed peer).attach link)
  rw [hstarted] at hfinal ⊢
  dsimp only at hdone hfinal ⊢
  generalize emit .connection .connected ((first.claimed peer).attach link) = told
    at htold hsame hdone hfinal ⊢
  have hwrote := (roll_wrote told told.dice.roll.2).trans
    (transmit_wrote (.version (told.introduction peer now told.dice.roll.1)) _)
  have hsent := (htold.aside (dice_aside told.dice.roll.2 told)).greets hsame.writer
    ((congrArg Link.outbound hsame.link).trans hempty) (congrArg Session.version hsame.session)
    (congrArg Session.filterLoaded hsame.session) hdone
  generalize transmit _ { told with dice := told.dice.roll.2 } = sent at hwrote hsent hfinal ⊢
  -- The listeners that hear of the connection might change the list before the introduction is
  -- made; what they write down then would show.
  have hgrown : told.journal <+: final := by
    obtain ⟨entries, hentries, _⟩ := hwrote.journal
    have hentered : sent.1.journal ++ [.entered .awaitingVerack] <+: final := hfinal
    rw [hentries] at hentered
    exact ((List.prefix_append ..).trans (List.prefix_append ..)).trans hentered
  rw [introduction_eq htold.config (hsmooth.watched_eq htold hgrown)] at hsent
  have hbegins : Step (fun _ => True) (.greeting, sent.1) (.working, sent.1.await) := .begins
  have hbegun := (hsent.carried.steps (.single hbegins)).aside (task_aside (.reading {}) _)
  have hlink : told.link = link := hsame.link
  refine ⟨told.dice.roll.1, .inl ⟨[], _, _, _, ⟨?_, ?_, ?_, rfl, fun _ => ?_⟩, .reading {},
    hbegun, hsent.version, hsent.filtered, hsent.emptied, hsent.bytes⟩⟩
  · exact congrArg Signals.stopping (hwrote.reader.signals.trans hsame.signals)
  · exact hwrote.reader.inbound.trans (congrArg Link.inbound hlink)
  · exact congrArg Option.isSome (hwrote.reader.ending.trans (congrArg Link.ending hlink))
  · exact Frame.drain_of_incomplete (by rw [Frame.next]; rfl)

/-- When the peer is greeted, the reader has read all that there was, and the greeting is the only
message that has been sent, but for the replies to that. -/
theorem connect_rested {peer : Endpoint} {link : Link} {now : Int64} {turns : List Turn}
    (hfirst : first.Watchful) (hopened : first.connect peer link now = (c, .done))
    (hempty : link.outbound = []) (hsmooth : Smooth first (c.play turns).journal) :
    ∃ nonce, Rested first (.version (first.introduction peer now nonce)) [] link.inbound
      link.ending.isSome c := by
  have hgone : first.session.stage = .disconnected := by
    by_contra hbusy
    rw [connect_refused peer link now hbusy] at hopened
    cases hopened
  rw [connect, claim_of_disconnected hgone] at hopened
  obtain ⟨hsettled, hstarted⟩ := Prod.ext_iff.mp hopened
  subst hsettled
  have hfinal : ((first.claimed peer).start peer link now).1.settle.journal <+: _ :=
    play_keeps_journal turns _
  have hbefore := (settle_changes _).journal_extends.trans hfinal
  obtain ⟨nonce, htalking⟩ := start_talking hsmooth hfirst hgone hempty hstarted hbefore
  exact ⟨nonce, htalking.settle hsmooth hfinal⟩

/-- When no reply waits, all that was written lies with the peer, or was taken by it. -/
theorem Rested.outcome (h : Rested first hello gone stream ended c)
    (hreplied : c.isReplying = false) :
    c.session.version = negotiated first.config.protocolVersion (first.streamed stream).messages ∧
      first.Transcript hello (first.streamed stream).messages (gone ++ c.link.outbound) := by
  obtain ⟨waiting, ⟨done, d, progress, loading, hparsed, hstands, hspoken⟩ | hhushed, hread⟩ := h
  · cases htask : c.task with
    | reading intake =>
      rw [htask] at hstands
      cases hstands
      cases hread intake htask
      rw [hparsed.messages_eq]
      exact ⟨hspoken.version, hspoken.outbound⟩
    | replying unsent backlog loading =>
      rw [isReplying, htask] at hreplied
      cases hreplied
    | _ =>
      rw [htask] at hstands
      cases hstands
  · exact ⟨hhushed.version, hhushed.bytes⟩

/-- When the owner ends the session, nothing more is written. -/
theorem outbound_disconnect (c : Connection) :
    c.disconnect.1.link.outbound = c.link.outbound := by
  have hends (c : Connection) : c.endSession.link.outbound = c.link.outbound :=
    congrArg Link.outbound c.endSession_undisturbed.link
  unfold disconnect
  split
  · rfl
  · rfl
  · split
    · exact hends (c.ask.notice .readerAborted)
    · exact hends { c.ask with link := { c.link with closed := true } }
  · split
    · split
      · exact hends ({ c.ask with writer := none }.notice .readerAborted)
      · exact hends c.ask.hangUp
    · split
      · rfl
      · exact hends (c.ask.notice .readerAborted).hangUp

/-- After an introduction of the peer the version is the lesser of both sides' versions. -/
theorem version_onVersion (v : Version) (c : Connection) :
    (c.onVersion v).1.session.version = some (min v.version c.config.protocolVersion) := by
  rw [onVersion_eq]
  split
  · rw [session_transmit]
    rfl
  · rfl

end Connection

/-- The fields that every introduction has. -/
def Version.commonPieces (v : Version) : List Bytes :=
  [int32Bytes .little v.version, Bytes.ofNat .little 8 v.services.bits.toNat,
   int64Bytes .little v.timestamp] ++ v.receiver.pieces ++ v.sender.pieces ++
  [Bytes.ofNat .little 8 v.nonce.toNat] ++ varBytesPieces (Utf8.encode v.userAgent) ++
  [int32Bytes .little v.startHeight]

/-- The wish to be told of transactions stands behind them, if the version is late enough. -/
theorem Version.flatten_pieces_eq (v : Version) :
    v.pieces.flatten = v.commonPieces.flatten ++
      if relayAfter < v.version then [if v.relay then 1 else 0] else [] := by
  have hpieces : v.pieces = v.commonPieces ++
      if relayAfter < v.version then [[if v.relay then 1 else 0]] else [] := rfl
  rw [hpieces, List.flatten_append]
  split <;> rfl

/-- **The peer is asked to announce transactions exactly if nothing is watched**, as otherwise a
filter will say which ones are wanted. -/
theorem Connection.relay_introduction (c : Connection) (peer : Endpoint) (now : Int64)
    (nonce : UInt64) :
    (c.introduction peer now nonce).relay = decide (c.filterList = []) := by
  have hfilter := c.hasFilter_iff
  rw [introduction]
  cases hsome : c.hasFilter <;> simp_all

/-- **What a peer is sent in a whole session.**  The owner sends nothing itself, the list of
addresses does not change, and no failure is reported.  Then a peer that cuts all that was written
into frames gets them intact, and nothing is left over: first an introduction, which asks for
transactions if nothing is watched, and then the replies to its messages, in their order.  The
version that is agreed on is told by the last introduction of the peer, and by each one when it is
handled.  If the owner ends the session then, nothing more is written. -/
theorem play_replies {config : Config} {supply : IdSupply} {dice : Dice} {history : List Act}
    {peer : Endpoint} {link : Link} {now : Int64} {turns : List Turn} {read : Drained}
    (hfirst : (Connection.new config supply dice).after history = first)
    (hopened : first.connect peer link now = (c, .done))
    (hempty : link.outbound = [])
    (hturns : ∀ turn ∈ turns, turn.IsReserved)
    (hends : (Turn.deliver link.inbound link.ending :: turns).Pairwise
      fun a b => a.ends = true → b.bytes = [])
    (hsmooth : Smooth first (c.play turns).journal)
    (hreplied : (c.play turns).isReplying = false)
    (hhello : ∀ nonce, (Outgoing.version (first.introduction peer now nonce)).Fits)
    (hread : first.streamed (sessionBytes link turns) = read) :
    ∃ nonce replies,
      Frame.received config.network.magic (c.taken turns ++ (c.play turns).link.outbound) =
        ((.version (first.introduction peer now nonce) :: replies).map Outgoing.arrived, []) ∧
      (first.introduction peer now nonce).pieces.flatten =
        (first.introduction peer now nonce).commonPieces.flatten ++
          (if relayAfter < config.protocolVersion then
            [if first.filterList = [] then 1 else 0] else []) ∧
      Exchange config.protocolVersion first.watched read.messages replies ∧
      (c.play turns).session.version = negotiated config.protocolVersion read.messages ∧
      (∀ v (s : Connection), (s.onVersion v).1.session.version =
        some (min v.version s.config.protocolVersion)) ∧
      (c.play turns).disconnect.1.link.outbound = (c.play turns).link.outbound := by
  have hsteps := new_after_steps config supply dice history
  rw [hfirst] at hsteps
  have hconfig : first.config = config := hsteps.config
  have hwatchful : first.Watchful := hsteps.watchful (new_watchful config supply dice)
  rw [List.pairwise_cons] at hends
  obtain ⟨nonce, hbegun⟩ := connect_rested hwatchful hopened hempty hsmooth
  have hplayed := play_rested hsmooth hturns (fun turn hturn hended => hends.1 turn hturn hended)
    hends.2 hbegun
  obtain ⟨hversion, replies, hexchange, hbytes⟩ := hplayed.outcome hreplied
  rw [← sessionBytes, hread, hconfig] at hversion hexchange
  rw [List.nil_append, hconfig] at hbytes
  refine ⟨nonce, replies, ?_, ?_, hexchange, hversion, version_onVersion, outbound_disconnect _⟩
  · rw [hbytes]
    refine Frame.received_row config.network.length_magic ?_
    rw [List.forall_mem_cons]
    refine ⟨hhello nonce, hexchange.fits fun m hm => ?_⟩
    rw [← hread] at hm
    exact Frame.fits_of_mem_drain hm
  · rw [Version.flatten_pieces_eq, Connection.relay_introduction]
    simp only [introduction, hconfig, decide_eq_true_eq]

/-- An entry that tells neither of a change to the list of addresses nor of a failure. -/
def Entry.isSmooth : Entry → Bool
  | .watching _ => false
  | .noticed (.sessionFailed ..) => false
  | _ => true

/-- With such entries behind it a journal tells of no change and of no failure. -/
theorem Connection.Smooth.of_entries {added : List Entry}
    (hfirst : watchedAfter first.journal = first.filterList)
    (hadded : added.all Entry.isSmooth = true) : Smooth first (first.journal ++ added) := by
  rw [List.all_eq_true] at hadded
  constructor
  · intro before hbefore hfinal
    obtain ⟨part, rfl⟩ := hbefore
    have hpart : ∀ entry ∈ part, entry.isSmooth = true := fun entry hentry =>
      hadded entry (((List.prefix_append_right_inj _).mp hfinal).subset hentry)
    clear hfinal
    rw [← hfirst]
    induction part using List.reverseRecOn with
    | nil => rw [List.append_nil]
    | append_singleton part entry ih =>
      obtain ⟨hpart, hentry⟩ := List.forall_mem_append.mp hpart
      have hsmooth := hentry entry List.mem_cons_self
      rw [← List.append_assoc, watchedAfter_snoc, ih hpart]
      cases entry <;> first | rfl | cases hsmooth
  · intro peer cause hfailure
    rw [List.drop_left] at hfailure
    cases hadded _ hfailure

/-- The introduction of a new connection is not too long. -/
theorem new_introduction_fits (nonce : UInt64) :
    (Outgoing.version ((Connection.new {} ⟨1⟩ ⟨0⟩).introduction default 0 nonce)).Fits := by
  have halike : (Outgoing.version ((Connection.new {} ⟨1⟩ ⟨0⟩).introduction default 0 0)).Alike
      (.version ((Connection.new {} ⟨1⟩ ⟨0⟩).introduction default 0 nonce)) :=
    .introduction _ 0 nonce
  rw [Outgoing.Fits, halike.length_payload]
  decide

/-- A peer that introduces itself and confirms, and does both again, is sent an introduction and
two confirmations. -/
theorem play_replies_to_insistence :
    ∃ c nonce, (Connection.new {} ⟨1⟩ ⟨0⟩).connect default {} 0 = (c, .done) ∧
      let turns := [Turn.deliver (Frame.stream Network.mainnet.magic insistence) none]
      Frame.received Network.mainnet.magic (c.taken turns ++ (c.play turns).link.outbound) =
        ([.version ((Connection.new {} ⟨1⟩ ⟨0⟩).introduction default 0 nonce), .verack,
          .verack].map Outgoing.arrived, []) ∧
      (c.play turns).session.version = some protocolVersion := by
  have hread := drain_insistence
  obtain ⟨intake, hdelivered⟩ := deliver_insistence
  -- Of the bytes it matters what is read from them and what comes of it.
  generalize Frame.stream Network.mainnet.magic insistence = bs at hread hdelivered ⊢
  let begun := (Connection.new {} ⟨1⟩ ⟨0⟩).begun {}
  have hplayed : begun.play [.deliver bs none] = _ := (play_deliver ..).trans hdelivered
  have hreplied : (begun.play [.deliver bs none]).isReplying = false := by
    rw [hplayed]
    rfl
  have hsmooth : Smooth (.new {} ⟨1⟩ ⟨0⟩) (begun.play [.deliver bs none]).journal := by
    rw [hplayed]
    exact .of_entries rfl rfl
  have hstream : (Connection.new {} ⟨1⟩ ⟨0⟩).streamed (sessionBytes {} [.deliver bs none]) =
      ⟨[.version namedVersion, .verack, .version namedVersion, .verack], none, []⟩ := by
    have hbytes : sessionBytes {} [.deliver bs none] = bs := List.append_nil _
    rw [hbytes]
    exact hread
  obtain ⟨nonce, replies, hreceived, -, hexchange, hversion, -, -⟩ :=
    @play_replies (Connection.new {} ⟨1⟩ ⟨0⟩) begun {} ⟨1⟩ ⟨0⟩ [] default {} 0 [.deliver bs none] _
      rfl new_connect_begun rfl (by simp [Turn.IsReserved]) (by simp [Turn.ends]) hsmooth hreplied
      new_introduction_fits hstream
  have hagreed : negotiated protocolVersion
      [.version namedVersion, .verack, .version namedVersion, .verack] = some protocolVersion := by
    decide
  have hreplies : replies = [.verack, .verack] := by
    have hmessages : [.version namedVersion, .verack, .version namedVersion, .verack] =
      (((([] ++ [.version namedVersion]) ++ [.verack]) ++ [.version namedVersion]) ++ [.verack] :
        List Message) := rfl
    obtain ⟨third, _, hreplies, hthird, rfl⟩ := Exchange.exists_of_snoc (hmessages ▸ hexchange)
    obtain ⟨second, _, rfl, hsecond, rfl⟩ := hthird.exists_of_snoc
    obtain ⟨_, _, rfl, hfirst, rfl⟩ := hsecond.exists_of_snoc
    obtain ⟨_, _, rfl, hnone, rfl⟩ := hfirst.exists_of_snoc
    cases hnone.eq_nil
    exact hreplies
  rw [hreplies] at hreceived
  exact ⟨begun, nonce, new_connect_begun, hreceived, hversion.trans hagreed⟩

end LightPeer