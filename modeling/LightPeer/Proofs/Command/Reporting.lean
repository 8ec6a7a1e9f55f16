import LightPeer.Command.Listen
import LightPeer.Proofs.Frame.Stream
import LightPeer.Proofs.Record.Amounts
import LightPeer.Proofs.Session.Changes
import LightPeer.Proofs.Session.Portion

/-!
# What the command that listens says

The command has one listener of each kind, and nobody else registers any.  So whatever happens,
each event is told to the listener of its kind, and behind the call stands in the journal what the
listener made of the event: the lines that it said, or the report that it panicked.

It panics at a transaction the outputs of which cannot be added up, and at nothing else.  This is
the command as it is built with overflow checks.  Built without them it would say a line there too,
but a wrong one wherever no word of 64 bits is the sum.

* `Told` — what is made of an event;
* `Accounted` — journals in which that stands behind every event;
* `call_listener`, `change_accounted` — one call, and one change of a connection;
* `transactions_accounted` — whatever is done;
* `unsummed_amounts` — amounts that are received and have no sum.
-/

namespace LightPeer.Listen

open Connection

/-- The listener of a kind. -/
def listener : (kind : ListenerKind) → Listener kind
  | .connection => onSession
  | .transaction => onTransaction
  | .block => onBlock

/-- What the listener of its kind makes of an event, in a session. -/
inductive Told (id : ListenerId) (s : Session) : Event → List Entry → Prop
  | connected :
    Told id s (.connection .connected) [.said ("🔌 Connected to " ++ Notice.peerText s.peer)]
  | verack : Told id s (.connection .verack) [.said (handshakeLine s)]
  | disconnected : Told id s (.connection .disconnected) [.said "📴 Disconnected"]
  /-- There is a line for a transaction, with the exact sum of its outputs. -/
  | summed {tx : Tx} {total : Int64} (htotal : total.toInt = tx.amounts.sum)
      (hsummable : tx.Summable) : Told id s (.transaction tx) [.said (transactionLine tx total)]
  /-- A partial sum is not in range, and so there is no line. -/
  | unsummed {tx : Tx} (h : ¬ tx.Summable) :
    Told id s (.transaction tx) [.noticed (.listener (.panicked "transaction" id))]
  | block (event : BlockEvent) : Told id s (.block event) ((blockLines event).map .said)

/-- Entries in which every event is accounted for: it was told under the handle of its kind, and
what was made of it stands right behind.  All others are entries of the connection itself. -/
inductive Accounted (id : ListenerKind → ListenerId) : List Entry → Prop
  | nil : Accounted id []
  | own {entry : Entry} {rest : List Entry} (hown : entry.IsOwn) (hrest : Accounted id rest) :
    Accounted id (entry :: rest)
  | event {e : Event} {s : Session} {told rest : List Entry} (htold : Told (id e.kind) s e told)
      (hrest : Accounted id rest) :
    Accounted id (.emitted e :: .called (id e.kind) s.stage e :: (told ++ rest))

variable {id : ListenerKind → ListenerId} {old new : List Entry} {c c' : Connection}

/-- What is accounted for in two parts is so in both together. -/
theorem Accounted.append (hold : Accounted id old) (hnew : Accounted id new) :
    Accounted id (old ++ new) := by
  induction hold with
  | nil => exact hnew
  | own hown _ ih => exact .own hown ih
  | event htold _ ih =>
    rw [List.cons_append, List.cons_append, List.append_assoc]
    exact .event htold ih

/-- Lines are said one after the other. -/
theorem run_foldr_say (lines : List String) (c : Connection) :
    (lines.foldr Reaction.say .done).run c =
      ({ c with journal := c.journal ++ lines.map .said }, .ok) := by
  induction lines generalizing c with
  | nil =>
    rw [List.map_nil, List.append_nil]
    rfl
  | cons line lines ih =>
    rw [List.foldr_cons, Reaction.run, ih, List.map_cons, record, List.append_assoc]
    rfl

/-- The listener for transactions says the exact sum, or panics. -/
theorem run_onTransaction (tx : Tx) (number : ListenerId) (s : Session) :
    (∃ total, Told number s (.transaction tx) [.said (transactionLine tx total)] ∧
        onTransaction tx = .say (transactionLine tx total) .done) ∨
      Told number s (.transaction tx) [.noticed (.listener (.panicked "transaction" number))] ∧
        onTransaction tx = .finish .panicked := by
  rw [onTransaction]
  cases htotal : tx.totalOutput? with
  | some total =>
    obtain ⟨hexact, hsummable⟩ := Tx.totalOutput?_eq_some_iff.mp htotal
    exact .inl ⟨total, .summed hexact hsummable, rfl⟩
  | none => exact .inr ⟨.unsummed (Tx.totalOutput?_eq_none_iff.mp htotal), rfl⟩

/-- What a listener that says lines and ends well leaves of a call. -/
theorem call_of_say {kind : ListenerKind} {event : kind.Event} {l : Listener kind}
    (lines : List String) (h : l event = lines.foldr Reaction.say .done) (c : Connection)
    (number : ListenerId) :
    call kind event c (number, l) =
      { c with
        journal := c.journal ++ [.called number c.session.stage (.ofKind kind event)] ++
          lines.map .said } := by
  rw [call_eq]
  dsimp only
  rw [h, run_foldr_say]
  rfl

/-- What a listener that panics leaves of a call:  the call, what was said until then, and a
complaint with its handle. -/
theorem call_of_panic {kind : ListenerKind} {event : kind.Event} {l : Listener kind}
    (h : l event = .finish .panicked) (c : Connection) (number : ListenerId) :
    call kind event c (number, l) =
      { c with
        journal := c.journal ++ [.called number c.session.stage (.ofKind kind event)] ++
          [.noticed (.listener (.panicked kind.name number))] } := by
  rw [call_eq]
  dsimp only
  rw [h]
  rfl

/-- **A call of the listener of a kind leaves its account**, and changes nothing else. -/
theorem call_listener (kind : ListenerKind) (event : kind.Event) (c : Connection)
    (number : ListenerId) :
    ∃ told, Told number c.session (.ofKind kind event) told ∧
      call kind event c (number, listener kind) =
        { c with
          journal :=
            c.journal ++ [.called number c.session.stage (.ofKind kind event)] ++ told } := by
  cases kind with
  | connection =>
    cases event with
    | connected => exact ⟨_, .connected, rfl⟩
    | verack => exact ⟨_, .verack, rfl⟩
    | disconnected => exact ⟨_, .disconnected, rfl⟩
  | transaction =>
    rcases run_onTransaction event number c.session with ⟨total, htold, hsays⟩ | ⟨htold, hpanics⟩
    · exact ⟨_, htold, call_of_say [transactionLine event total] hsays c number⟩
    · exact ⟨_, htold, call_of_panic hpanics c number⟩
  | block => exact ⟨_, .block event, call_of_say (blockLines event) rfl c number⟩

/-- The listeners of the command and no others. -/
def Serves (id : ListenerKind → ListenerId) (c : Connection) : Prop :=
  ∀ kind, (c.listeners.ofKind kind).entries = [(id kind, listener kind)]

/-- An event is accounted for, and nothing else comes of it. -/
theorem emit_accounted (kind : ListenerKind) (event : kind.Event) (hc : Serves id c) :
    ∃ entries, Accounted id entries ∧
      emit kind event c = { c with journal := c.journal ++ entries } := by
  obtain ⟨told, htold, hcall⟩ := call_listener kind event
    (c.record (.emitted (.ofKind kind event))) (id kind)
  have hkind : (Event.ofKind kind event).kind = kind := Event.kind_ofKind kind event
  have htold' : Told (id (Event.ofKind kind event).kind) c.session (.ofKind kind event) told := by
    rw [hkind]
    exact htold
  refine ⟨_, .event htold' .nil, ?_⟩
  rw [emit, hc kind, List.foldl_cons, List.foldl_nil, hcall, hkind]
  simp only [record, List.append_assoc, List.cons_append, List.nil_append, List.append_nil]

/-- **Every change is accounted for**, and the listeners stay those of the command. -/
theorem change_accounted (h : Change c c') (hc : Serves id c) :
    Serves id c' ∧ ∃ entries, Accounted id entries ∧ c'.journal = c.journal ++ entries := by
  cases h with
  | still hlisteners hjournal =>
    refine ⟨?_, [], .nil, hjournal.trans (List.append_nil _).symm⟩
    rw [Serves, hlisteners]
    exact hc
  | notes hown => exact ⟨hc, _, .own hown .nil, rfl⟩
  | tells kind event =>
    obtain ⟨entries, haccounted, hemit⟩ := emit_accounted kind event hc
    rw [hemit]
    exact ⟨hc, entries, haccounted, rfl⟩

/-- So is a row of changes, however it came about. -/
theorem changes_accounted (h : Changes c c') (hc : Serves id c) :
    Serves id c' ∧ ∃ entries, Accounted id entries ∧ c'.journal = c.journal ++ entries := by
  induction h with
  | refl => exact ⟨hc, [], .nil, (List.append_nil _).symm⟩
  | tail _ hlast ih =>
    obtain ⟨hserves, entries, haccounted, hjournal⟩ := ih
    obtain ⟨hserves', entries', haccounted', hjournal'⟩ := change_accounted hlast hserves
    refine ⟨hserves', entries ++ entries', haccounted.append haccounted', ?_⟩
    rw [hjournal', hjournal, List.append_assoc]

/-- A connection begins without listeners, and addresses that are watched add none. -/
theorem listeners_new_watch (config : Config) (supply : IdSupply) (dice : Dice)
    (addresses : List String) :
    ((Connection.new config supply dice).watch addresses).1.listeners = .empty := by
  unfold watch
  split <;> rfl

/-- The handles that the listeners get, one after the other. -/
def handles (supply : IdSupply) : ListenerKind → ListenerId
  | .connection => ⟨supply.next⟩
  | .transaction => ⟨supply.next + 1⟩
  | .block => ⟨supply.next + 1 + 1⟩

/-- The command registers one listener of each kind, for its session, for transactions and for
blocks. -/
theorem listeners_listening (c : Connection) :
    (listening c).listeners =
      ((c.listeners.add (handles c.supply .connection) .connection onSession).add
        (handles c.supply .transaction) .transaction onTransaction).add
          (handles c.supply .block) .block onBlock := rfl

/-- The command has its listeners and no others, and each of them listens under a handle of its
own. -/
theorem exists_serves {o : ListenOptions} {supply : IdSupply} {dice : Dice} {target : Target}
    (h : prepare o supply dice = .ok (c, target)) : ∃ id, Serves id c := by
  unfold prepare at h
  split at h
  · cases h
  · next config _ =>
    have hempty := listeners_new_watch config supply dice o.addresses
    split at h
    · cases h
    · next watching hwatch =>
      rw [hwatch] at hempty
      split at h
      · cases h
      · cases h
        refine ⟨handles watching.supply, ?_⟩
        intro kind
        rw [listeners_listening, hempty]
        cases kind <;> rfl

/-- A whole session of the command is a row of acts that keep its listeners. -/
theorem exists_acts_converse (peer : Endpoint) (now : Int64) (c : Connection)
    (script : PeerScript) :
    ∃ acts, (∀ act ∈ acts, act.KeepsListeners) ∧ (converse peer now c script).1 = c.after acts := by
  cases script with
  | refuse text =>
    refine ⟨[.dialFailed peer text], List.forall_mem_singleton.mpr trivial, ?_⟩
    show (converse peer now c (.refuse text)).1 = (c.dialFailed peer text).1
    unfold converse
    dsimp only
    split <;> next hdial => rw [hdial]
  | stream bytes =>
    unfold converse
    dsimp only
    split
    · next failed cause hconnect =>
      refine ⟨[.connect peer {} now], List.forall_mem_singleton.mpr trivial, ?_⟩
      show failed = (c.connect peer {} now).1
      rw [hconnect]
    · next connected _ _ hconnect =>
      refine ⟨[.connect peer {} now, .turn (.deliver bytes (some .closed)), .disconnect], ?_, ?_⟩
      · simp [Act.KeepsListeners]
      · show _ = (((c.connect peer {} now).1.deliver bytes (some .closed)).disconnect).1
        rw [hconnect]

/-- **Every transaction is accounted for**, where the command is built with overflow checks.  Its
outputs have a sum if and only if every partial
sum is in the range of 64 bits, and then it is exact; and there is no row of amounts that a peer
could not send.  Whatever is done with the connection of the command, in a whole session and in any
row of acts, its journal grows by entries in which what the listeners say stands behind every event:
behind a transaction, one line with the exact sum, or the report that the listener panicked if there
is no sum. -/
theorem transactions_accounted (o : ListenOptions) (supply : IdSupply) (dice : Dice)
    (c : Connection) (target : Target) (h : prepare o supply dice = .ok (c, target)) :
    (∀ (t : Tx) (total : Int64),
        t.totalOutput? = some total ↔ total.toInt = t.amounts.sum ∧ t.Summable) ∧
      (∀ amounts : List Int64, amounts.length < 2 ^ 64 → ∃ payload t,
        Message.decode "tx" payload = .ok (some (.tx t)) ∧
          t.outputs.map TxOut.value = amounts) ∧
      ∃ id,
        (∀ acts : List Act, (∀ act ∈ acts, act.KeepsListeners) →
          ∃ entries, Accounted id entries ∧ (c.after acts).journal = c.journal ++ entries) ∧
        ∀ peer now script,
          ∃ entries, Accounted id entries ∧
            (converse peer now c script).1.journal = c.journal ++ entries := by
  obtain ⟨id, hserves⟩ := exists_serves h
  have hacts : ∀ acts : List Act, (∀ act ∈ acts, act.KeepsListeners) →
      ∃ entries, Accounted id entries ∧ (c.after acts).journal = c.journal ++ entries :=
    fun acts hacts => (changes_accounted (after_changes hacts c) hserves).2
  refine ⟨fun t total => Tx.totalOutput?_eq_some_iff, Tx.exists_decode, id, hacts, ?_⟩
  intro peer now script
  obtain ⟨acts, hkeeps, hconverse⟩ := exists_acts_converse peer now c script
  rw [hconverse]
  exact hacts acts hkeeps

/-- Options that name a peer and nothing else. -/
def peerOnly : ListenOptions := { peer := "[::1]" }

/-- The connection of the command with these options. -/
def waiting : Connection := listening ((Connection.new {} ⟨1⟩ ⟨0⟩).watch []).1

/-- These options are accepted, and the connection is the one that is named here. -/
theorem exists_prepare_peerOnly : ∃ target, prepare peerOnly ⟨1⟩ ⟨0⟩ = .ok (waiting, target) :=
  ⟨_, rfl⟩

/-- A transaction the outputs of which have a sum. -/
def moderate : TxBody := Tx.paying [50, 60]

/-- A transaction the outputs of which have none: the first one alone is the largest amount. -/
def excessive : TxBody := Tx.paying [Int64.maxValue, 1]

/-- A peer sends the one and the other. -/
def paymentBytes : Bytes :=
  Frame.stream Network.mainnet.magic [⟨"tx", moderate.encode⟩, ⟨"tx", excessive.encode⟩]

/-- Both transactions are complete in what the peer has sent, and nothing is left over. -/
theorem drain_paymentBytes : Frame.drain Network.mainnet.magic paymentBytes =
    ⟨[.tx (.ofBody moderate), .tx (.ofBody excessive)], none, []⟩ := by
  have hfits (p : Frame.Packet) (hp : p ∈ [⟨"tx", moderate.encode⟩, ⟨"tx", excessive.encode⟩]) :
      p.Fits := by
    simp only [List.mem_cons, List.not_mem_nil, or_false] at hp
    obtain rfl | rfl := hp <;> exact ⟨by decide, by decide, by decide +kernel⟩
  have hpaying {first second : Int64} : Message.decode "tx" (Tx.paying [first, second]).encode =
      _ := Tx.decode_encode (Tx.paying_fits (show 2 < 2 ^ 64 by decide))
  exact Frame.drain_whole rfl hfits (.cons hpaying (.cons hpaying .nil))

/-- So many bytes fit into one portion. -/
theorem length_paymentBytes : paymentBytes.length = 104 := by
  have hmagic : Network.mainnet.magic.length = 4 := rfl
  rw [paymentBytes, Frame.length_stream hmagic]
  decide +kernel

/-- What the peer sends is received as soon as it is there. -/
def payingActs : List Act := [.connect default {} 0, .turn (.deliver paymentBytes none)]

/-- The listing names the first transaction with its amount.  At the second one the listener panics,
since the largest amount and another have no sum, and the session goes on. -/
theorem journal_payingActs : ∃ greeting,
    (waiting.after payingActs).journal = waiting.journal ++ (greeting ++
      [.received (.tx (.ofBody moderate)), .emitted (.transaction (.ofBody moderate)),
        .called ⟨2⟩ .awaitingVerack (.transaction (.ofBody moderate)),
        .said (transactionLine (.ofBody moderate) 110),
        .received (.tx (.ofBody excessive)), .emitted (.transaction (.ofBody excessive)),
        .called ⟨2⟩ .awaitingVerack (.transaction (.ofBody excessive)),
        .noticed (.listener (.panicked "transaction" ⟨2⟩))]) := by
  have hfresh : (waiting.begun {}).Fresh := ⟨rfl, rfl, rfl, rfl, rfl⟩
  have hlength := length_paymentBytes
  obtain ⟨intake, -, hafter⟩ := after_begun rfl rfl hfresh drain_paymentBytes
    (List.ne_nil_of_length_pos (by omega)) (by omega)
  rw [payingActs, hafter]
  exact ⟨(waiting.begun {}).journal.drop waiting.journal.length, rfl⟩

/-- The account of that session, with the line of the one transaction and the panic at the other,
and that of a session of the command itself with the same peer. -/
theorem transactions_accounted_peerOnly :
    ∃ c target, prepare peerOnly ⟨1⟩ ⟨0⟩ = .ok (c, target) ∧ ∃ id,
      (∃ entries, Accounted id entries ∧
        (c.after payingActs).journal = c.journal ++ entries ∧
        .said (transactionLine (.ofBody moderate) 110) ∈ entries ∧
        ∃ number, .noticed (.listener (.panicked "transaction" number)) ∈ entries) ∧
      ∃ entries, Accounted id entries ∧
        (converse default 0 c (.stream paymentBytes)).1.journal = c.journal ++ entries := by
  obtain ⟨target, hprepare⟩ := exists_prepare_peerOnly
  obtain ⟨-, -, id, hacts, hconverse⟩ :=
    transactions_accounted peerOnly ⟨1⟩ ⟨0⟩ waiting target hprepare
  obtain ⟨entries, haccounted, hjournal⟩ :=
    hacts payingActs (by simp [payingActs, Act.KeepsListeners])
  obtain ⟨greeting, hgreeting⟩ := journal_payingActs
  obtain rfl := List.append_cancel_left (hjournal.symm.trans hgreeting)
  refine ⟨waiting, target, hprepare, id, ⟨_, haccounted, hjournal, ?_, ⟨2⟩, ?_⟩,
    hconverse default 0 (.stream paymentBytes)⟩
  · simp
  · simp

/-- **There are transactions without a sum, and they are read.**  Of the largest amount and one no
word at all is the sum, and so without overflow checks the answer would be wrong instead of missing.
The order of the amounts matters as well:  of the largest amount, one more and one less there is no
running sum, although the exact sum is the largest amount. -/
theorem unsummed_amounts :
    (∃ payload t, Message.decode "tx" payload = .ok (some (.tx t)) ∧
        t.outputs.map TxOut.value = [Int64.maxValue, 1] ∧ t.totalOutput? = none ∧
        ∀ total : Int64, total.toInt ≠ t.amounts.sum) ∧
      ¬ ∀ (payload : Bytes) (t : Tx), Message.decode "tx" payload = .ok (some (.tx t)) →
        Tx.InRange t.amounts.sum →
          ∃ total, t.totalOutput? = some total ∧ total.toInt = t.amounts.sum := by
  constructor
  · obtain ⟨payload, t, hdecode, hvalues⟩ := Tx.exists_decode [Int64.maxValue, 1] (by decide)
    have hsum : t.amounts.sum = 2 ^ 63 := by
      rw [Tx.amounts_eq hvalues]
      rfl
    have hinexact (total : Int64) : total.toInt ≠ t.amounts.sum := by
      rw [hsum]
      exact Int.ne_of_lt total.toInt_lt
    refine ⟨payload, t, hdecode, hvalues, ?_, hinexact⟩
    cases htotal : t.totalOutput? with
    | none => rfl
    | some total => exact absurd (Tx.totalOutput?_eq_some_iff.mp htotal).1 (hinexact total)
  · intro hexact
    obtain ⟨payload, t, hdecode, hvalues⟩ :=
      Tx.exists_decode [Int64.maxValue, 1, -1] (by decide)
    have hamounts : t.amounts = [2 ^ 63 - 1, 1, -1] := Tx.amounts_eq hvalues
    have hrange : Tx.InRange t.amounts.sum := by
      rw [hamounts]
      exact ⟨by decide, by decide⟩
    obtain ⟨total, htotal, -⟩ := hexact payload t hdecode hrange
    -- The sum of the first two amounts leaves the range.
    have hstep := (Tx.totalOutput?_eq_some_iff.mp htotal).2 [2 ^ 63 - 1, 1] (by simp [hamounts])
    exact absurd hstep.2 (by decide)

end LightPeer.Listen
