import LightPeer.Proofs.Session.Confirmations
import LightPeer.Proofs.Session.TwinActs

/-!
# Outcomes of listeners

What a listener comes to is reported, and that is all that comes of it.  Two connections with
which the same is done, and whose listeners only look on, are twins: one listener may fail or
panic where the other ends well, at any call and for any reason that it finds in what has
happened, and still the same bytes go out, the session passes through the same stages, and the
same listeners are called in the same order.

* `Reaction.IsPassive.run` — a listener that only looks on says something at most;
* `call_of_passive` — so of a call the journal keeps the call, what was said, and a report;
* `outcomes_lawful` — which makes twins of connections with different outcomes;
* `after_agrees` — however long they run.
-/

namespace LightPeer

open Connection Kinship

/-- A listener that does nothing with the connection.  It looks at the session and recalls what
has happened, says lines, and comes to any outcome that it likes. -/
def Reaction.IsPassive : Reaction → Prop
  | .finish _ => True
  | .say _ next => next.IsPassive
  | .look next => ∀ session, (next session).IsPassive
  | .recall next => ∀ journal, (next journal).IsPassive
  | .watch .. => False
  | .tune .. => False
  | .listen .. => False
  | .remove .. => False

/-- What happens on the connection itself: all but what listeners say, and what is reported of
their outcomes. -/
def Entry.isPublic : Entry → Bool
  | .said _ => false
  | .noticed (.listener _) => false
  | _ => true

/-- What has happened on the connection itself. -/
def publicEntries (journal : List Entry) : List Entry := journal.filter Entry.isPublic

theorem publicEntries_append (old new : List Entry) :
    publicEntries (old ++ new) = publicEntries old ++ publicEntries new :=
  List.filter_append ..

/-- What is said and what is reported of a call does not show. -/
theorem publicEntries_snoc_of_private (journal : List Entry) {entry : Entry}
    (h : entry.isPublic = false) : publicEntries (journal ++ [entry]) = publicEntries journal := by
  rw [publicEntries_append, publicEntries, publicEntries, List.filter_singleton, h]
  exact List.append_nil _

variable {c c' : Connection}

/-- **A listener that only looks on leaves all as it is**, but for what it says. -/
theorem Reaction.IsPassive.run {r : Reaction} (h : r.IsPassive) (c : Connection) :
    ∃ journal, (r.run c).1 = { c with journal } ∧
      publicEntries journal = publicEntries c.journal := by
  induction r generalizing c with
  | finish outcome => exact ⟨c.journal, rfl, rfl⟩
  | say line next ih =>
    obtain ⟨journal, hrun, hpublic⟩ := ih h (c.record (.said line))
    exact ⟨journal, hrun, hpublic.trans (publicEntries_snoc_of_private _ rfl)⟩
  | look next ih => exact ih c.session (h c.session) c
  | «recall» next ih => exact ih c.journal (h c.journal) c
  | watch => exact absurd h id
  | tune => exact absurd h id
  | listen => exact absurd h id
  | remove => exact absurd h id

/-- **Of a call of such a listener the call itself is public, and nothing else.** -/
theorem call_of_passive {kind : ListenerKind} {listener : Listener kind} {event : kind.Event}
    (h : (listener event).IsPassive) (c : Connection) (id : ListenerId) :
    ∃ journal, call kind event c (id, listener) = { c with journal } ∧
      publicEntries journal =
        publicEntries c.journal ++ [.called id c.session.stage (.ofKind kind event)] := by
  obtain ⟨journal, hrun, hpublic⟩ :=
    h.run (c.record (.called id c.session.stage (.ofKind kind event)))
  have hcalled := hpublic.trans (publicEntries_append c.journal _)
  rw [call]
  dsimp only
  split
  · exact ⟨journal, hrun, hcalled⟩
  · -- A failure or a panic is reported, and the report is not public.
    next complaint _ =>
    rw [hrun]
    exact ⟨journal ++ [.noticed (.listener complaint)], rfl,
      (publicEntries_snoc_of_private journal rfl).trans hcalled⟩

/-- Listeners that only look on may do anything; what has happened on the connection itself is the
same, and so are chance and the clock. -/
def outcomes : Kinship where
  exact := True
  reactions r r' := r.IsPassive ∧ r'.IsPassive
  journals journal journal' := publicEntries journal' = publicEntries journal

/-- Whatever a passive listener comes to, both sides see the same calls and nothing else. -/
theorem outcomes_lawful : outcomes.Lawful where
  record := by
    intro journal journal' h entry
    show publicEntries _ = publicEntries _
    rw [publicEntries_append, publicEntries_append, h]
  sent := by
    intro journal journal' m m' h hm
    show publicEntries _ = publicEntries _
    rw [publicEntries_append, publicEntries_append, h, hm.2 trivial]
  call := by
    intro c c' kind listener listener' event h hreaction id
    obtain ⟨journal, hcall, hpublic⟩ := call_of_passive hreaction.1 c id
    obtain ⟨journal', hcall', hpublic'⟩ := call_of_passive hreaction.2 c' id
    rw [hcall, hcall']
    have hjournal : publicEntries journal' = publicEntries journal := by
      rw [hpublic, hpublic', h.journal, h.session]
    exact { h with journal := hjournal }

/-- The same is done with both, or listeners that only look on are registered with both. -/
inductive Act.SameButOutcomes : Act → Act → Prop
  | same {act : Act} (h : ∀ kind listener, act ≠ .turn (.listen kind listener)) :
    SameButOutcomes act act
  | listen (kind : ListenerKind) {listener listener' : Listener kind}
      (h : ∀ event, (listener event).IsPassive) (h' : ∀ event, (listener' event).IsPassive) :
    SameButOutcomes (.turn (.listen kind listener)) (.turn (.listen kind listener'))

/-- Acts that differ in the outcomes of listeners only are acts of the one kinship. -/
theorem Act.SameButOutcomes.acts {act act' : Act} (h : act.SameButOutcomes act') :
    outcomes.Acts act act' := by
  cases h with
  | same hlisten => exact .same (fun _ _ => .inl trivial) hlisten
  | listen kind hpassive hpassive' =>
    exact .listen kind fun event => ⟨hpassive event, hpassive' event⟩

/-- New connections are twins. -/
theorem new_twins (config : Config) (supply : IdSupply) (dice : Dice) :
    outcomes.Twins (.new config supply dice) (.new config supply dice) where
  config := rfl
  watched := rfl
  policy := rfl
  session := rfl
  supply := rfl
  listeners kind := by cases kind <;> exact .nil
  link := .same _
  writer := .none
  task := .idle rfl rfl
  signals := .inl rfl
  dice _ := rfl
  journal := rfl

/-- **What listeners come to has no influence.**  The same is done with two new connections, but
the listeners that are registered with them, which only look on, come to different outcomes.
After every such row of acts the bytes that went out and those that are still to be written are
the same, what is known of the session is the same, and so is all that has happened on the
connection itself: the stages, the messages, the events, and who was called when. -/
theorem after_agrees (config : Config) (supply : IdSupply) (dice : Dice) {acts acts' : List Act}
    (hacts : List.Forall₂ Act.SameButOutcomes acts acts') :
    let c := (Connection.new config supply dice).after acts
    let c' := (Connection.new config supply dice).after acts'
    c'.link = c.link ∧ c'.writer = c.writer ∧ c'.session = c.session ∧
      publicEntries c'.journal = publicEntries c.journal := by
  have htwins := (new_twins config supply dice).after outcomes_lawful
    (hacts.imp fun _ _ => Act.SameButOutcomes.acts)
  refine ⟨?_, ?_, htwins.session, htwins.journal⟩
  · obtain ⟨outbound, hlink, _, hsame⟩ := htwins.link
    rw [hlink, hsame trivial]
  · rcases htwins.writers with ⟨hnone, hnone'⟩ | ⟨_, _, hsome, hsome', _, hsame⟩
    · rw [hnone, hnone']
    · rw [hsome, hsome', hsame trivial]

/-- A listener that never ends well, but not always in the same way. -/
def moody {kind : ListenerKind} : Listener kind := fun _ =>
  .recall fun journal => .finish (if journal.length = 3 then .panicked else .failed "no")

/-- Listeners are registered, a session begins, and the peer sends a transaction, a proof that does
not hold, and another transaction.  Then another session begins, in which the peer introduces
itself and confirms before it closes the link. -/
def attendance (listener : {kind : ListenerKind} → Listener kind) : List Act :=
  [.turn (.listen .connection listener), .turn (.listen .transaction listener),
    .connect default {} 0,
    .turn (.deliver (Frame.stream Network.mainnet.magic strayAmong) none),
    .connect default {} 0,
    .turn (.deliver (Frame.stream Network.mainnet.magic insistence) (some .closed))]

/-- Listeners that never end well do as well as some that always do. -/
theorem after_agrees_of_moody :
    let c := (Connection.new {} ⟨1⟩ ⟨0⟩).after (attendance fun _ => .done)
    let c' := (Connection.new {} ⟨1⟩ ⟨0⟩).after (attendance moody)
    List.Forall₂ Act.SameButOutcomes (attendance fun _ => .done) (attendance moody) ∧
      c'.link = c.link ∧ c'.writer = c.writer ∧ c'.session = c.session ∧
      publicEntries c'.journal = publicEntries c.journal := by
  have hlisten (kind : ListenerKind) : Act.SameButOutcomes
      (.turn (.listen kind fun _ => .done)) (.turn (.listen kind moody)) :=
    .listen kind (fun _ => trivial) fun _ _ => trivial
  have hacts : List.Forall₂ Act.SameButOutcomes (attendance fun _ => .done)
      (attendance moody) :=
    .cons (hlisten .connection) (.cons (hlisten .transaction) (.cons (.same nofun)
      (.cons (.same nofun) (.cons (.same nofun) (.cons (.same nofun) .nil)))))
  exact ⟨hacts, after_agrees {} ⟨1⟩ ⟨0⟩ hacts⟩

end LightPeer
