import LightPeer.Proofs.Session.Watching

/-!
# In what connections may differ and still behave alike

A `Kinship` says in what two connections may differ: in what chance and the clock give, in what
their listeners do, and in what has been written down.  All else is the same for twins, and of
the bytes that go out at least the number is, so that a peer which takes some of them holds up
both or none.

What a kinship has to promise is little (`Kinship.Lawful`): entries that are alike can be written
down on both sides, and a call of two listeners leaves twins behind.

* `Outgoing.Alike.length_payload` — messages that differ in a nonce, a time or a tweak alone are of
  one size;
* `Links.write` — as many bytes are written on both sides;
* `Registered.add`, `Registered.remove` — listeners stay in step.
-/

namespace LightPeer

open Connection

/-- The second message differs from the first at most in what is drawn by chance or read off a
clock. -/
inductive Outgoing.Alike : Outgoing → Outgoing → Prop
  | same (m : Outgoing) : Alike m m
  | introduction (v : Version) (timestamp : Int64) (nonce : UInt64) :
    Alike (.version v) (.version { v with timestamp, nonce })
  | filter (watched : List Watched) (rate : Rate) (update : FilterUpdate)
      (tweak tweak' : UInt32) :
    Alike (filterMessage watched rate tweak update) (filterMessage watched rate tweak' update)

/-- The size of a filter depends on how much is watched. -/
theorem size_filterFor (watched : List Watched) (rate : Rate) (tweak : UInt32) :
    (filterFor watched rate tweak).data.size = Bloom.sizeFor watched.length rate := by
  rw [filterFor_eq, BloomFilter.size_foldl_insert]
  exact Array.size_replicate

namespace Outgoing.Alike

variable {m m' : Outgoing}

/-- Two messages that differ by chance or by the clock are messages of one kind. -/
theorem command_eq (h : m.Alike m') : m'.command = m.command := by
  cases h <;> rfl

/-- Messages that are alike take the same number of bytes. -/
theorem length_payload (h : m.Alike m') : m'.payload.length = m.payload.length := by
  cases h with
  | same => rfl
  | introduction v timestamp nonce =>
    simp only [payload, pieces, Version.pieces, List.flatten_append, List.length_append,
      List.flatten_cons, List.flatten_nil, Wire.int64Bytes, Bytes.length_ofNat]
  | filter watched rate update tweak tweak' =>
    have hsize : (filterFor watched rate tweak').bytes.length =
        (filterFor watched rate tweak).bytes.length := by
      rw [BloomFilter.bytes, BloomFilter.bytes, Array.length_toList, Array.length_toList,
        size_filterFor, size_filterFor]
    simp only [filterMessage, payload, pieces, FilterLoad.pieces, FilterLoad.ofFilter,
      Wire.varBytesPieces, hsize, List.flatten_append, List.length_append, List.flatten_cons,
      List.flatten_nil, Bytes.length_ofNat]

end Outgoing.Alike

/-- The frames of messages that are alike are of one size. -/
theorem Frame.length_encode_of_alike {m m' : Outgoing} (h : m.Alike m') (magic : Bytes) :
    (Frame.encode magic m'.command m'.payload).length =
      (Frame.encode magic m.command m.payload).length := by
  simp only [Frame.encode, h.command_eq, List.length_append, h.length_payload, Bytes.length_ofNat,
    length_checksum]

/-- In what two connections may differ. -/
structure Kinship where
  /-- Whether chance and the clock are the same for both. -/
  exact : Prop
  /-- What a listener of the first does, and what the one in its place does. -/
  reactions : Reaction → Reaction → Prop
  /-- What has been written down for the first, and for the second. -/
  journals : List Entry → List Entry → Prop

namespace Kinship

/-- Messages that are handed to the one writer and to the other. -/
def Messages (k : Kinship) (m m' : Outgoing) : Prop := m.Alike m' ∧ (k.exact → m' = m)

/-- Bytes that go out on both sides. -/
def Written (k : Kinship) (bs bs' : Bytes) : Prop := bs'.length = bs.length ∧ (k.exact → bs' = bs)

/-- Links that are the same but for the bytes that the peer has not taken. -/
def Links (k : Kinship) (l l' : Link) : Prop :=
  ∃ outbound, l' = { l with outbound } ∧ k.Written l.outbound outbound

/-- The same listeners under the same handles, but for what they do. -/
def Registered (k : Kinship) (l l' : Listeners) : Prop :=
  ∀ kind, List.Forall₂
    (fun e e' => e'.1 = e.1 ∧ ∀ event, k.reactions (e.2 event) (e'.2 event))
    (l.ofKind kind).entries (l'.ofKind kind).entries

/-- The readers have to do the same.  One without a session may have had one or not. -/
inductive Tasks (k : Kinship) : Task → Task → Prop
  | idle {task task' : Task} (h : task.duty = .idle) (h' : task'.duty = .idle) :
    Tasks k task task'
  | reading (intake : Intake) : Tasks k (.reading intake) (.reading intake)
  | replying {unsent unsent' : Option Outgoing} (h : Option.Rel k.Messages unsent unsent')
      (backlog : Backlog) (loading : Bool) :
    Tasks k (.replying unsent backlog loading) (.replying unsent' backlog loading)
  | closing : Tasks k .closing .closing

/-- Connections that differ as the kinship says. -/
structure Twins (k : Kinship) (c c' : Connection) : Prop where
  config : c'.config = c.config
  watched : c'.watched = c.watched
  policy : c'.policy = c.policy
  session : c'.session = c.session
  supply : c'.supply = c.supply
  listeners : k.Registered c.listeners c'.listeners
  link : k.Links c.link c'.link
  writer : Option.Rel k.Written c.writer c'.writer
  task : k.Tasks c.task c'.task
  /-- A reader that is there is told the same. -/
  signals : c.task.duty = .idle ∨ c'.signals = c.signals
  dice : k.exact → c'.dice = c.dice
  journal : k.journals c.journal c'.journal

/-- Pieces of work that have left twins behind, and have come equally far. -/
inductive Results (k : Kinship) : Connection × Progress → Connection × Progress → Prop
  | done {c c'} (h : k.Twins c c') : Results k (c, .done) (c', .done)
  | blocked {c c'} {unsent unsent' : Option Outgoing} (h : k.Twins c c')
      (hunsent : Option.Rel k.Messages unsent unsent') :
    Results k (c, .blocked unsent) (c', .blocked unsent')
  | failed {c c'} (h : k.Twins c c') (cause : SessionError) :
    Results k (c, .failed cause) (c', .failed cause)

/-- Rows of messages that have been handled equally far. -/
inductive Stops (k : Kinship) : Connection × Stop → Connection × Stop → Prop
  | handled {c c'} (h : k.Twins c c') : Stops k (c, .handled) (c', .handled)
  | blocked {c c'} {unsent unsent' : Option Outgoing} (h : k.Twins c c')
      (hunsent : Option.Rel k.Messages unsent unsent') (rest : List Message) (loading : Bool) :
    Stops k (c, .blocked unsent rest loading) (c', .blocked unsent' rest loading)
  | failed {c c'} (h : k.Twins c c') (cause : SessionError) :
    Stops k (c, .failed cause) (c', .failed cause)

/-- What a kinship has to promise. -/
structure Lawful (k : Kinship) : Prop where
  record {journal journal' : List Entry} (h : k.journals journal journal') (entry : Entry) :
    k.journals (journal ++ [entry]) (journal' ++ [entry])
  sent {journal journal' : List Entry} {m m' : Outgoing} (h : k.journals journal journal')
      (hm : k.Messages m m') : k.journals (journal ++ [.sent m]) (journal' ++ [.sent m'])
  call {c c' : Connection} {kind : ListenerKind} {listener listener' : Listener kind}
      {event : kind.Event} (h : k.Twins c c')
      (hreaction : k.reactions (listener event) (listener' event)) (id : ListenerId) :
    k.Twins (call kind event c (id, listener)) (call kind event c' (id, listener'))

end Kinship

open Kinship

variable {k : Kinship} {c c' : Connection} {m m' : Outgoing}

/-- While a session is in progress on both sides, their readers have been told the same. -/
theorem Kinship.Twins.signals_eq (h : k.Twins c c') (hbusy : c.task.duty ≠ .idle) :
    c'.signals = c.signals :=
  h.signals.resolve_left hbusy

/-- However far a piece of work has come, it leaves twins behind. -/
theorem Kinship.Results.twins {r r' : Connection × Progress} (h : k.Results r r') :
    k.Twins r.1 r'.1 := by
  cases h <;> assumption

namespace Kinship

variable {bs bs' more more' : Bytes} {l l' : Link}

theorem Messages.same (m : Outgoing) : k.Messages m m := ⟨.same m, fun _ => rfl⟩

theorem Written.same (bs : Bytes) : k.Written bs bs := ⟨rfl, fun _ => rfl⟩

/-- Bytes that may stand for each other may do so behind others. -/
theorem Written.append (h : k.Written bs bs') (hmore : k.Written more more') :
    k.Written (bs ++ more) (bs' ++ more') := by
  refine ⟨?_, fun hexact => ?_⟩
  · rw [List.length_append, List.length_append, h.1, hmore.1]
  · rw [h.2 hexact, hmore.2 hexact]

/-- A peer that takes some of the bytes takes as many of the others. -/
theorem Written.take (h : k.Written bs bs') (n : Nat) : k.Written (bs.take n) (bs'.take n) := by
  refine ⟨?_, fun hexact => ?_⟩
  · rw [List.length_take, List.length_take, h.1]
  · rw [h.2 hexact]

/-- And as many are left. -/
theorem Written.drop (h : k.Written bs bs') (n : Nat) : k.Written (bs.drop n) (bs'.drop n) := by
  refine ⟨?_, fun hexact => ?_⟩
  · rw [List.length_drop, List.length_drop, h.1]
  · rw [h.2 hexact]

/-- Where all is written on one side, all is written on the other. -/
theorem Written.isEmpty_eq (h : k.Written bs bs') : bs'.isEmpty = bs.isEmpty := by
  rw [Bool.eq_iff_iff, List.isEmpty_iff_length_eq_zero, List.isEmpty_iff_length_eq_zero, h.1]

theorem Links.same (l : Link) : k.Links l l := ⟨l.outbound, rfl, .same _⟩

/-- What does not depend on the bytes that go out is the same of both links. -/
theorem Links.eq_of_untold {α : Type} (h : k.Links l l') (f : Link → α)
    (hf : ∀ l outbound, f { l with outbound } = f l) : f l' = f l := by
  obtain ⟨outbound, rfl, _⟩ := h
  exact hf l outbound

/-- As many bytes are written on both sides, with the same end. -/
theorem Links.write (h : k.Links l l') (hbs : k.Written bs bs') :
    k.Links (l.write bs).1 (l'.write bs').1 ∧ k.Written (l.write bs).2.1 (l'.write bs').2.1 ∧
      (l'.write bs').2.2 = (l.write bs).2.2 := by
  obtain ⟨outbound, rfl, hlink⟩ := h
  unfold Link.write
  rw [hbs.isEmpty_eq]
  split
  · exact ⟨⟨outbound, rfl, hlink⟩, hbs, rfl⟩
  · split
    · exact ⟨⟨outbound, rfl, hlink⟩, hbs, rfl⟩
    · dsimp only
      -- How much a link takes depends on the number of bytes that lie on it, not on the bytes.
      cases l.room with
      | none => exact ⟨⟨_, rfl, hlink.append hbs⟩, .same [], rfl⟩
      | some room =>
        have hrest := hbs.drop (room - l.outbound.length)
        dsimp only
        rw [hlink.1, hrest.isEmpty_eq]
        exact ⟨⟨_, rfl, hlink.append (hbs.take _)⟩, hrest, rfl⟩

end Kinship

namespace Kinship

variable {l l' : Listeners}

/-- The handles are the same, in the same order. -/
theorem Registered.ids_eq (h : k.Registered l l') (kind : ListenerKind) :
    (l'.ofKind kind).ids = (l.ofKind kind).ids := by
  have hentries := h kind
  rw [Registry.ids, Registry.ids]
  generalize (l.ofKind kind).entries = entries at hentries ⊢
  generalize (l'.ofKind kind).entries = entries' at hentries ⊢
  induction hentries with
  | nil => rfl
  | cons hentry _ ih => rw [List.map_cons, List.map_cons, hentry.1, ih]

theorem Registered.contains_ofKind (h : k.Registered l l') (kind : ListenerKind)
    (id : ListenerId) : (l'.ofKind kind).contains id = (l.ofKind kind).contains id := by
  rw [Registry.contains, Registry.contains, h.ids_eq]

/-- A handle that is in use on one side is in use on the other. -/
theorem Registered.contains_eq (h : k.Registered l l') (id : ListenerId) :
    l'.contains id = l.contains id := by
  have hconnection : l'.connection.contains id = l.connection.contains id :=
    h.contains_ofKind .connection id
  have htransaction : l'.transaction.contains id = l.transaction.contains id :=
    h.contains_ofKind .transaction id
  have hblock : l'.block.contains id = l.block.contains id := h.contains_ofKind .block id
  rw [Listeners.contains, Listeners.contains, hconnection, htransaction, hblock]

/-- Listeners that may stand for each other are registered under the same handle. -/
theorem Registered.add (h : k.Registered l l') (id : ListenerId) {kind : ListenerKind}
    {listener listener' : Listener kind}
    (hreactions : ∀ event, k.reactions (listener event) (listener' event)) :
    k.Registered (l.add id kind listener) (l'.add id kind listener') := by
  intro kind'
  cases kind <;> cases kind' <;>
    first
    | exact h _
    | exact List.rel_append (h _) (.cons ⟨rfl, hreactions⟩ .nil)

/-- When a handle is removed on both sides, the listeners that are left still stand for each
other. -/
theorem Registered.remove (h : k.Registered l l') (id : ListenerId) :
    k.Registered (l.remove id) (l'.remove id) := by
  have hentries (kind : ListenerKind) := List.rel_filter
    (p := fun e : ListenerId × Listener kind => e.1 ≠ id) (q := fun e => e.1 ≠ id)
    (fun _ _ hentry => by simp only [hentry.1]) (h kind)
  have hconnection : l'.connection.contains id = l.connection.contains id :=
    h.contains_ofKind .connection id
  have htransaction : l'.transaction.contains id = l.transaction.contains id :=
    h.contains_ofKind .transaction id
  unfold Listeners.remove
  rw [hconnection, htransaction]
  intro kind
  split
  · cases kind <;> first | exact h _ | exact hentries _
  · split
    · cases kind <;> first | exact h _ | exact hentries _
    · cases kind <;> first | exact h _ | exact hentries _

end Kinship

end LightPeer
