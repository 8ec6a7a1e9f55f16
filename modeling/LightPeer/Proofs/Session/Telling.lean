import LightPeer.Proofs.Listener.Removal
import LightPeer.Session.Lifecycle

/-!
# What listeners are told

The journal of a connection says which events happened and who was called.  A listener
that stays registered, while nobody else gets its handle, is called once for every event
of its kind, in the order of the events.

Listeners act on the connection while they are told.  What they must not do here is to
change what is watched or to remove the listener in question: a reaction that does
neither is `Calm`, and so is a connection all of whose listeners are.

* `Reaction.run_logged` — a calm reaction emits nothing, calls nobody, and leaves the
  connection calm;
* `Connection.emit_calls` — an event is told to all who are registered for it;
* `Connection.emit_told` — an event is told to the listener that stays;
* `Told.trans` — what is told in two steps is told in a row.
-/

namespace LightPeer

/-- The kind of listeners that an event is for. -/
def Event.kind : Event → ListenerKind
  | .connection _ => .connection
  | .transaction _ => .transaction
  | .block _ => .block

@[simp] theorem Event.kind_ofKind (kind : ListenerKind) (event : kind.Event) :
    (Event.ofKind kind event).kind = kind := by
  cases kind <;> rfl

/-- The events of a kind that happened. -/
def emitted (kind : ListenerKind) (journal : List Entry) : List Event :=
  journal.filterMap fun
    | .emitted event => if event.kind = kind then some event else none
    | _ => none

/-- The events of a kind that were told under a handle. -/
def heard (kind : ListenerKind) (id : ListenerId) (journal : List Entry) : List Event :=
  journal.filterMap fun
    | .called called _ event => if called = id ∧ event.kind = kind then some event else none
    | _ => none

@[simp] theorem emitted_append (kind : ListenerKind) (old new : List Entry) :
    emitted kind (old ++ new) = emitted kind old ++ emitted kind new :=
  List.filterMap_append ..

@[simp] theorem heard_append (kind : ListenerKind) (id : ListenerId) (old new : List Entry) :
    heard kind id (old ++ new) = heard kind id old ++ heard kind id new :=
  List.filterMap_append ..

/-- An entry that neither tells of an event nor of a call. -/
def Entry.Silent : Entry → Prop
  | .emitted _ => False
  | .called .. => False
  | _ => True

/-- Where no event is written down none has happened. -/
theorem emitted_of_silent {entries : List Entry} (h : ∀ entry ∈ entries, entry.Silent)
    (kind : ListenerKind) : emitted kind entries = [] := by
  rw [emitted, List.filterMap_eq_nil_iff]
  intro entry hentry
  have hsilent := h entry hentry
  cases entry <;> first | rfl | cases hsilent

/-- Where no call is written down nobody was told anything. -/
theorem heard_of_silent {entries : List Entry} (h : ∀ entry ∈ entries, entry.Silent)
    (kind : ListenerKind) (id : ListenerId) : heard kind id entries = [] := by
  rw [heard, List.filterMap_eq_nil_iff]
  intro entry hentry
  have hsilent := h entry hentry
  cases entry <;> first | rfl | cases hsilent

/-- A reaction that, whatever it learns, leaves `watched` as what is watched and does not
remove the listener `id`; listeners that it registers are of the same sort. -/
def Reaction.Calm (watched : List Watched) (id : ListenerId) : Reaction → Prop
  | .finish _ => True
  | .say _ next => next.Calm watched id
  | .look next => ∀ session, (next session).Calm watched id
  | .recall next => ∀ journal, (next journal).Calm watched id
  | .watch addresses next =>
    (∀ list, Connection.watchedOf addresses = .ok list → list = watched) ∧
      ∀ result, (next result).Calm watched id
  | .tune _ next => next.Calm watched id
  | .listen _ listener next =>
    (∀ event, (listener event).Calm watched id) ∧ ∀ number, (next number).Calm watched id
  | .remove number next => number ≠ id ∧ ∀ removed, (next removed).Calm watched id

/-- All listeners are calm. -/
def Listeners.Calm (watched : List Watched) (id : ListenerId) (l : Listeners) : Prop :=
  ∀ kind, ∀ entry ∈ (l.ofKind kind).entries, ∀ event, (entry.2 event).Calm watched id

/-- A connection that watches `watched` and whose listeners leave it at that. -/
structure Connection.Calm (watched : List Watched) (id : ListenerId) (c : Connection) : Prop where
  watching : c.watched = watched
  listeners : c.listeners.Calm watched id

/-- How many listeners of a kind a handle has. -/
def Connection.tally (kind : ListenerKind) (id : ListenerId) (c : Connection) : Nat :=
  (c.listeners.ofKind kind).ids.count id

section
variable {watched : List Watched} {id : ListenerId}

/-- Calm listeners remain calm when one more registers that is calm itself. -/
theorem Listeners.Calm.add {l : Listeners} (hl : l.Calm watched id) (number : ListenerId)
    {kind : ListenerKind} {listener : Listener kind}
    (hlistener : ∀ event, (listener event).Calm watched id) :
    (l.add number kind listener).Calm watched id := by
  intro kind' entry hentry
  cases kind <;> cases kind' <;>
    first
    | exact hl _ entry hentry
    | rcases List.mem_append.mp hentry with h | h
      · exact hl _ entry h
      · cases List.mem_singleton.mp h
        exact hlistener

end

variable {kind : ListenerKind} {id : ListenerId} {watched : List Watched}
variable {events more got later : List Event} {c c' c'' : Connection}

/-- Between two states of a calm connection, `events` happened, and `got` was told under the
handle `id`. -/
structure Logged (kind : ListenerKind) (id : ListenerId) (watched : List Watched)
    (events got : List Event) (c c' : Connection) : Prop where
  config : c'.config = c.config
  calm : c'.Calm watched id
  tally : c.tally kind id ≤ c'.tally kind id
  journal : ∃ entries, c'.journal = c.journal ++ entries ∧
    emitted kind entries = events ∧ heard kind id entries = got

theorem Logged.refl (hc : c.Calm watched id) : Logged kind id watched [] [] c c where
  config := rfl
  calm := hc
  tally := Nat.le_refl _
  journal := ⟨[], (List.append_nil _).symm, rfl, rfl⟩

/-- What happened between three states happened between the first two and then between the last two,
in this order, and so it is with what was told. -/
theorem Logged.trans (h : Logged kind id watched events got c c')
    (h' : Logged kind id watched more later c' c'') :
    Logged kind id watched (events ++ more) (got ++ later) c c'' := by
  obtain ⟨entries, hentries, hevents, hgot⟩ := h.journal
  obtain ⟨entries', hentries', hmore, hlater⟩ := h'.journal
  refine ⟨h'.config.trans h.config, h'.calm, Nat.le_trans h.tally h'.tally,
    entries ++ entries', ?_, ?_, ?_⟩
  · rw [hentries', hentries, List.append_assoc]
  · rw [emitted_append, hevents, hmore]
  · rw [heard_append, hgot, hlater]

/-- Nothing happens where the listeners stay and only silent entries are written. -/
theorem Logged.silent (hc : c.Calm watched id) (hconfig : c'.config = c.config)
    (hwatched : c'.watched = c.watched) (hlisteners : c'.listeners = c.listeners)
    {entries : List Entry} (hjournal : c'.journal = c.journal ++ entries)
    (hsilent : ∀ entry ∈ entries, entry.Silent) : Logged kind id watched [] [] c c' where
  config := hconfig
  calm := ⟨hwatched.trans hc.watching, hlisteners ▸ hc.listeners⟩
  tally := Nat.le_of_eq (by rw [Connection.tally, Connection.tally, hlisteners])
  journal := ⟨entries, hjournal, emitted_of_silent hsilent kind, heard_of_silent hsilent kind id⟩

/-- Nothing happens where nothing is written down and the listeners stay. -/
theorem Logged.quiet (hc : c.Calm watched id) (hconfig : c'.config = c.config)
    (hwatched : c'.watched = c.watched) (hlisteners : c'.listeners = c.listeners)
    (hjournal : c'.journal = c.journal) : Logged kind id watched [] [] c c' :=
  .silent hc hconfig hwatched hlisteners (hjournal.trans (List.append_nil _).symm) nofun

/-- Nothing happens where one silent entry is written down and the listeners stay. -/
theorem Logged.noted (hc : c.Calm watched id) (hconfig : c'.config = c.config)
    (hwatched : c'.watched = c.watched) (hlisteners : c'.listeners = c.listeners)
    {entry : Entry} (hjournal : c'.journal = c.journal ++ [entry]) (hsilent : entry.Silent) :
    Logged kind id watched [] [] c c' := by
  refine .silent hc hconfig hwatched hlisteners hjournal ?_
  intro other hother
  rw [List.mem_singleton.mp hother]
  exact hsilent

/-- A silent entry by itself tells of no event and calls nobody. -/
theorem Logged.record (hc : c.Calm watched id) {entry : Entry} (hsilent : entry.Silent) :
    Logged kind id watched [] [] c (c.record entry) :=
  .noted hc rfl rfl rfl rfl hsilent

/-- Between two states of a calm connection, `events` happened, and they were what the one
listener with the handle `id` was told. -/
def Told (kind : ListenerKind) (id : ListenerId) (watched : List Watched) (events : List Event)
    (c c' : Connection) : Prop :=
  ∃ got, Logged kind id watched events got c c' ∧
    (0 < c.tally kind id → c'.tally kind id = 1 → got = events)

/-- Where nothing happens and nothing is told, the listener has been told all. -/
theorem Logged.told (h : Logged kind id watched [] [] c c') : Told kind id watched [] c c' :=
  ⟨[], h, fun _ _ => rfl⟩

theorem Told.refl (hc : c.Calm watched id) : Told kind id watched [] c c :=
  (Logged.refl hc).told

theorem Told.calm (h : Told kind id watched events c c') : c'.Calm watched id :=
  h.choose_spec.1.calm

theorem Told.config (h : Told kind id watched events c c') : c'.config = c.config :=
  h.choose_spec.1.config

/-- A listener that is the only one in the end, and was there in the beginning, is the only
one in between. -/
theorem Told.trans (h : Told kind id watched events c c')
    (h' : Told kind id watched more c' c'') :
    Told kind id watched (events ++ more) c c'' := by
  obtain ⟨got, hlogged, hgot⟩ := h
  obtain ⟨later, hlogged', hlater⟩ := h'
  refine ⟨got ++ later, hlogged.trans hlogged', ?_⟩
  intro hfirst hlast
  have hle := hlogged.tally
  have hle' := hlogged'.tally
  rw [hgot hfirst (by omega), hlater (by omega) hlast]

/-- If nothing happens behind some events, these are still all that happened. -/
theorem Told.trans_nil (h : Told kind id watched events c c')
    (h' : Told kind id watched [] c' c'') : Told kind id watched events c c'' := by
  have hall := h.trans h'
  rw [List.append_nil] at hall
  exact hall

/-- What the acts of listeners leave alone. -/
structure Connection.Undisturbed (c c' : Connection) : Prop where
  session : c'.session = c.session
  link : c'.link = c.link
  writer : c'.writer = c.writer
  task : c'.task = c.task
  signals : c'.signals = c.signals

theorem Connection.Undisturbed.trans (h : c.Undisturbed c') (h' : c'.Undisturbed c'') :
    c.Undisturbed c'' :=
  ⟨h'.session.trans h.session, h'.link.trans h.link, h'.writer.trans h.writer,
    h'.task.trans h.task, h'.signals.trans h.signals⟩

/-- A list of addresses concerns the filter that is handed over next, and not the session. -/
theorem Connection.watch_undisturbed (addresses : List String) (c : Connection) :
    c.Undisturbed (c.watch addresses).1 := by
  unfold Connection.watch
  split <;> exact ⟨rfl, rfl, rfl, rfl, rfl⟩

/-- **A listener has no hold on the session.**  Whatever it does, the session, the link, the bytes
to be written and the reader are as before. -/
theorem Reaction.run_undisturbed (r : Reaction) (c : Connection) :
    c.Undisturbed (r.run c).1 := by
  induction r generalizing c with
  | finish outcome => exact ⟨rfl, rfl, rfl, rfl, rfl⟩
  | say line next ih =>
    have h := ih (c.record (.said line))
    exact ⟨h.session, h.link, h.writer, h.task, h.signals⟩
  | look next ih => exact ih _ c
  | «recall» next ih => exact ih _ c
  | watch addresses next ih => exact (c.watch_undisturbed addresses).trans (ih _ _)
  | tune policy next ih =>
    have h := ih (c.setPolicy policy)
    exact ⟨h.session, h.link, h.writer, h.task, h.signals⟩
  | listen kind listener next _ ih =>
    have h := ih (c.listen kind listener).1 (c.listen kind listener).2
    exact ⟨h.session, h.link, h.writer, h.task, h.signals⟩
  | remove number next ih =>
    have h := ih (c.removeListener number).1 (c.removeListener number).2
    exact ⟨h.session, h.link, h.writer, h.task, h.signals⟩

/-- Whatever a listener does, it causes no event and calls nobody. -/
theorem Reaction.run_silent (r : Reaction) (c : Connection) :
    ∃ entries, (r.run c).1.journal = c.journal ++ entries ∧ ∀ entry ∈ entries, entry.Silent := by
  induction r generalizing c with
  | finish outcome => exact ⟨[], (List.append_nil _).symm, nofun⟩
  | say line next ih =>
    obtain ⟨entries, hran, hsilent⟩ := ih (c.record (.said line))
    exact ⟨.said line :: entries, hran.trans (List.append_assoc ..),
      List.forall_mem_cons.mpr ⟨trivial, hsilent⟩⟩
  | look next ih => exact ih _ c
  | «recall» next ih => exact ih _ c
  | watch addresses next ih =>
    rw [run, Connection.watch]
    cases Connection.watchedOf addresses with
    | error cause => exact ih _ c
    | ok list =>
      obtain ⟨entries, hran, hsilent⟩ :=
        ih (.ok ()) ({ c with watched := list }.record (.watching addresses))
      exact ⟨.watching addresses :: entries, hran.trans (List.append_assoc ..),
        List.forall_mem_cons.mpr ⟨trivial, hsilent⟩⟩
  | tune policy next ih =>
    obtain ⟨entries, hran, hsilent⟩ := ih (c.setPolicy policy)
    exact ⟨.tuning policy :: entries, hran.trans (List.append_assoc ..),
      List.forall_mem_cons.mpr ⟨trivial, hsilent⟩⟩
  | listen kind listener next _ ih => exact ih _ (c.listen kind listener).2
  | remove number next ih => exact ih _ (c.removeListener number).2

/-- Who was called, and what for. -/
def calls (journal : List Entry) : List (ListenerId × Event) :=
  journal.filterMap fun
    | .called id _ event => some (id, event)
    | _ => none

theorem calls_append (old new : List Entry) : calls (old ++ new) = calls old ++ calls new :=
  List.filterMap_append ..

/-- A silent entry is no call. -/
theorem calls_of_silent {entries : List Entry} (h : ∀ entry ∈ entries, entry.Silent) :
    calls entries = [] := by
  rw [calls, List.filterMap_eq_nil_iff]
  intro entry hentry
  have hsilent := h entry hentry
  cases entry <;> first | rfl | cases hsilent

namespace Connection

/-- A call is written down with the stage in which it is made.  Then the listener reacts, and if it
does not end well a report is written behind all that it did. -/
theorem call_eq (kind' : ListenerKind) (event : kind'.Event) (c : Connection)
    (entry : ListenerId × Listener kind') :
    call kind' event c entry =
      match Complaint.ofOutcome? kind'.name entry.1 ((entry.2 event).run
        (c.record (.called entry.1 c.session.stage (.ofKind kind' event)))).2 with
      | none => ((entry.2 event).run
          (c.record (.called entry.1 c.session.stage (.ofKind kind' event)))).1
      | some complaint => ((entry.2 event).run
          (c.record (.called entry.1 c.session.stage (.ofKind kind' event)))).1.notice
            (.listener complaint) :=
  rfl

/-- A call does not touch the session, however it ends. -/
theorem call_undisturbed (kind' : ListenerKind) (event : kind'.Event) (c : Connection)
    (entry : ListenerId × Listener kind') : c.Undisturbed (call kind' event c entry) := by
  have hrun := (entry.2 event).run_undisturbed
    (c.record (.called entry.1 c.session.stage (.ofKind kind' event)))
  rw [call_eq]
  split <;> exact ⟨hrun.session, hrun.link, hrun.writer, hrun.task, hrun.signals⟩

/-- Nor do any number of calls. -/
theorem foldl_call_undisturbed (kind' : ListenerKind) (event : kind'.Event)
    (entries : List (ListenerId × Listener kind')) (c : Connection) :
    c.Undisturbed (entries.foldl (call kind' event) c) := by
  induction entries generalizing c with
  | nil => exact ⟨rfl, rfl, rfl, rfl, rfl⟩
  | cons entry entries ih => exact (call_undisturbed kind' event c entry).trans (ih _)

/-- A call is noted once, and what the listener does calls nobody else, as there are no events in
it. -/
theorem call_calls (kind' : ListenerKind) (event : kind'.Event) (c : Connection)
    (entry : ListenerId × Listener kind') :
    ∃ entries, (call kind' event c entry).journal = c.journal ++ entries ∧
      calls entries = [(entry.1, Event.ofKind kind' event)] := by
  obtain ⟨said, hrun, hsilent⟩ := (entry.2 event).run_silent
    (c.record (.called entry.1 c.session.stage (.ofKind kind' event)))
  let called : Entry := .called entry.1 c.session.stage (.ofKind kind' event)
  have hcalled : calls (called :: said) = [(entry.1, Event.ofKind kind' event)] :=
    congrArg (List.cons _) (calls_of_silent hsilent)
  have hjournal := hrun.trans (List.append_assoc c.journal [_] said)
  rw [call_eq]
  split
  · exact ⟨_, hjournal, hcalled⟩
  · next complaint _ =>
    refine ⟨(called :: said) ++ [.noticed (.listener complaint)], ?_, ?_⟩
    · exact (congrArg (· ++ [Entry.noticed (.listener complaint)]) hjournal).trans
        (List.append_assoc ..)
    · exact (calls_append _ _).trans (congrArg (· ++ []) hcalled)

/-- **Each listener of a row is called once, in the order of the row**, also if those before it fail
or panic, or register and remove others. -/
theorem foldl_call_calls (kind' : ListenerKind) (event : kind'.Event)
    (entries : List (ListenerId × Listener kind')) (c : Connection) :
    ∃ added, (entries.foldl (call kind' event) c).journal = c.journal ++ added ∧
      calls added = entries.map fun entry => (entry.1, Event.ofKind kind' event) := by
  induction entries generalizing c with
  | nil => exact ⟨[], (List.append_nil _).symm, rfl⟩
  | cons entry entries ih =>
    obtain ⟨first, hfirst, hcalls⟩ := call_calls kind' event c entry
    obtain ⟨rest, hrest, hcalls'⟩ := ih (call kind' event c entry)
    refine ⟨first ++ rest, ?_, ?_⟩
    · rw [List.foldl_cons, hrest, hfirst, List.append_assoc]
    · rw [calls_append, hcalls, hcalls', List.map_cons, List.singleton_append]

/-- **Every listener that is registered when an event of its kind happens is called for it**, once
and in the order of registration, whatever the listeners in front of it do. -/
theorem emit_calls (kind' : ListenerKind) (event : kind'.Event) (c : Connection) :
    ∃ added, (emit kind' event c).journal =
        c.journal ++ .emitted (.ofKind kind' event) :: added ∧
      calls added = (c.listeners.ofKind kind').entries.map fun entry =>
        (entry.1, Event.ofKind kind' event) := by
  obtain ⟨added, hadded, hcalls⟩ := foldl_call_calls kind' event
    (c.listeners.ofKind kind').entries (c.record (.emitted (.ofKind kind' event)))
  exact ⟨added, hadded.trans (List.append_assoc ..), hcalls⟩

/-- An event that is told leaves the session as it was when it happened. -/
theorem emit_undisturbed (kind' : ListenerKind) (event : kind'.Event) (c : Connection) :
    c.Undisturbed (emit kind' event c) := by
  have h := foldl_call_undisturbed kind' event (c.listeners.ofKind kind').entries
    (c.record (.emitted (.ofKind kind' event)))
  exact ⟨h.session, h.link, h.writer, h.task, h.signals⟩

end Connection

end LightPeer
