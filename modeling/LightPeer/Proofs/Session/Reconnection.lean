import LightPeer.Proofs.Session.Filtering
import LightPeer.Proofs.Session.TwinActs

/-!
# A session inherits nothing from the sessions before

A connection that has no session is as good as new.  Whatever has been done with it before,
however its sessions have ended, the next session goes as it would go on a new connection with the
same settings, the same addresses to watch and the same listeners: only the nonce and the time of
the introduction and the tweaks of filters are drawn anew.

Listeners remember, and so the new connection gets them with their memories: where one of them
recalls what has happened, it recalls the past of the old connection and what has happened on
the new one since (`Reaction.since`).  They are `Discreet`: no listener gets to see a nonce, a time
or a tweak.

* `Reaction.run_since` — a listener does the same on both connections;
* `renewal_lawful` — which makes twins of them;
* `after_reconnect` — for as long as one likes.
-/

namespace LightPeer

open Connection Kinship

variable {c c' : Connection} {past : List Entry}

/-- The second entry differs from the first at most in what is drawn by chance or read off a
clock. -/
inductive Entry.Alike : Entry → Entry → Prop
  | same (entry : Entry) : Alike entry entry
  | sent {m m' : Outgoing} (h : m.Alike m') : Alike (.sent m) (.sent m')

/-- A listener that remembers what has happened before on another connection. -/
def Reaction.since (past : List Entry) : Reaction → Reaction
  | .finish outcome => .finish outcome
  | .say line next => .say line (next.since past)
  | .look next => .look fun session => (next session).since past
  | .recall next => .recall fun journal => (next (past ++ journal)).since past
  | .watch addresses next => .watch addresses fun result => (next result).since past
  | .tune policy next => .tune policy (next.since past)
  | .listen kind listener next =>
    .listen kind (fun event => (listener event).since past) fun id => (next id).since past
  | .remove id next => .remove id fun removed => (next removed).since past

/-- A listener that makes no difference between histories that are alike. -/
def Reaction.Discreet : Reaction → Prop
  | .finish _ => True
  | .say _ next => next.Discreet
  | .look next => ∀ session, (next session).Discreet
  | .recall next => (∀ journal, (next journal).Discreet) ∧
      ∀ journal journal', List.Forall₂ Entry.Alike journal journal' → next journal' = next journal
  | .watch _ next => ∀ result, (next result).Discreet
  | .tune _ next => next.Discreet
  | .listen _ listener next => (∀ event, (listener event).Discreet) ∧ ∀ id, (next id).Discreet
  | .remove _ next => ∀ removed, (next removed).Discreet

/-- The listeners of a registry, with what they remember. -/
def Registry.since {kind : ListenerKind} (past : List Entry) (r : Registry (Listener kind)) :
    Registry (Listener kind) :=
  ⟨r.entries.map fun entry => (entry.1, fun event => (entry.2 event).since past)⟩

/-- All listeners, with what they remember. -/
def Listeners.since (past : List Entry) (l : Listeners) : Listeners :=
  ⟨l.connection.since past, l.transaction.since past, l.block.since past⟩

theorem Listeners.ofKind_since (past : List Entry) (l : Listeners) (kind : ListenerKind) :
    (l.since past).ofKind kind = (l.ofKind kind).since past := by
  cases kind <;> rfl

/-- No listener makes a difference between histories that are alike. -/
def Listeners.Discreet (l : Listeners) : Prop :=
  ∀ kind, ∀ entry ∈ (l.ofKind kind).entries, ∀ event, (entry.2 event).Discreet

/-- A new connection with the settings, the addresses and the listeners of this one. -/
def Connection.renewed (c : Connection) (dice : Dice) : Connection :=
  { Connection.new c.config c.supply dice with
    watched := c.watched
    policy := c.policy
    listeners := c.listeners.since c.journal }

/-- The listeners of the second connection remember the past of the first, and what has been
written down since is alike. -/
def renewal (past : List Entry) (exact : Prop) : Kinship where
  exact
  reactions r r' := r' = r.since past ∧ r.Discreet
  journals journal journal' := ∃ entries, journal = past ++ entries ∧
    List.Forall₂ Entry.Alike entries journal' ∧ (exact → journal' = entries)

section
variable {exact : Prop}

/-- Entries that are alike are written down on both sides. -/
theorem renewal_record {journal journal' : List Entry}
    (h : (renewal past exact).journals journal journal') {entry entry' : Entry}
    (hentry : entry.Alike entry') (hsame : exact → entry' = entry) :
    (renewal past exact).journals (journal ++ [entry]) (journal' ++ [entry']) := by
  obtain ⟨entries, rfl, halike, hexact⟩ := h
  refine ⟨entries ++ [entry], List.append_assoc .., ?_, fun hsure => ?_⟩
  · exact List.rel_append halike (.cons hentry .nil)
  · rw [hexact hsure, hsame hsure]

/-- Each listener stands for the one that remembers, under the same handle. -/
theorem renewal_registered {l : Listeners} (h : l.Discreet) :
    (renewal past exact).Registered l (l.since past) := by
  intro kind
  rw [Listeners.ofKind_since, Registry.since, List.forall₂_map_right_iff, List.forall₂_same]
  intro entry hentry
  exact ⟨rfl, fun event => ⟨rfl, h kind entry hentry event⟩⟩

/-- **A listener does the same on both connections**, and comes to the same outcome. -/
theorem Reaction.run_since {r : Reaction} (hr : r.Discreet)
    (h : (renewal past exact).Twins c c') :
    (renewal past exact).Twins (r.run c).1 ((r.since past).run c').1 ∧
      ((r.since past).run c').2 = (r.run c).2 := by
  have hrecord {c c' : Connection} (h : (renewal past exact).Twins c c') (entry : Entry) :
      (renewal past exact).Twins (c.record entry) (c'.record entry) :=
    { h with journal := renewal_record h.journal (.same entry) fun _ => rfl }
  induction r generalizing c c' with
  | finish outcome => exact ⟨h, rfl⟩
  | say line next ih => exact ih hr (hrecord h _)
  | look next ih =>
    have hnext := ih c.session (hr c.session) h
    rw [Reaction.since, Reaction.run, Reaction.run, h.session]
    exact hnext
  | «recall» next ih =>
    -- The new listener recalls the past that it was given and the journal of its own connection.
    obtain ⟨entries, hjournal, halike, _⟩ := h.journal
    have hsame : next (past ++ c'.journal) = next c.journal := by
      rw [hjournal]
      exact hr.2 _ _ (List.rel_append (List.forall₂_same.mpr fun entry _ => .same entry) halike)
    rw [Reaction.since, Reaction.run, Reaction.run, hsame]
    exact ih c.journal (hr.1 c.journal) h
  | watch addresses next ih =>
    rw [Reaction.since, Reaction.run, Reaction.run, Connection.watch, Connection.watch]
    cases watchedOf addresses with
    | error cause => exact ih (.error cause) (hr _) h
    | ok watched =>
      have hwatching : (renewal past exact).Twins { c with watched } { c' with watched } :=
        { h with watched := rfl }
      exact ih (.ok ()) (hr _) (hrecord hwatching _)
  | tune policy next ih =>
    have htuned : (renewal past exact).Twins { c with policy } { c' with policy } :=
      { h with policy := rfl }
    exact ih hr (hrecord htuned _)
  | listen kind listener next _ ih =>
    have hlisten : (c'.listen kind fun event => (listener event).since past).1 =
          (c.listen kind listener).1 ∧
        (renewal past exact).Twins (c.listen kind listener).2
          (c'.listen kind fun event => (listener event).since past).2 :=
      h.listen fun event => ⟨rfl, hr.1 event⟩
    obtain ⟨hid, hlistening⟩ := hlisten
    have hnext := ih (c.listen kind listener).1 (hr.2 _) hlistening
    rw [Reaction.since, Reaction.run, Reaction.run]
    dsimp only
    rw [hid]
    exact hnext
  | remove id next ih =>
    obtain ⟨hremoved, hleft⟩ := h.removeListener id
    have hnext := ih (c.removeListener id).1 (hr _) hleft
    rw [Reaction.since, Reaction.run, Reaction.run]
    dsimp only
    rw [hremoved]
    exact hnext

/-- Histories that are alike remain so, whatever happens on both sides, since no listener makes a
difference between them. -/
theorem renewal_lawful (past : List Entry) (exact : Prop) : (renewal past exact).Lawful where
  record h entry := renewal_record h (.same entry) fun _ => rfl
  sent h hm := renewal_record h (.sent hm.1) fun hsure => by rw [hm.2 hsure]
  call := by
    intro c c' kind listener listener' event h hreaction id
    have hcalled : (renewal past exact).Twins
        (c.record (.called id c.session.stage (.ofKind kind event)))
        (c'.record (.called id c'.session.stage (.ofKind kind event))) := by
      rw [h.session]
      exact { h with journal := renewal_record h.journal (.same _) fun _ => rfl }
    obtain ⟨hrun, houtcome⟩ := Reaction.run_since hreaction.2 hcalled
    rw [call, call]
    dsimp only
    rw [hreaction.1, houtcome]
    split
    · exact hrun
    · exact { hrun with journal := renewal_record hrun.journal (.same _) fun _ => rfl }

end

/-- The same act, in which a listener gets its memories with it. -/
def Act.since (past : List Entry) : Act → Act
  | .turn (.listen kind listener) =>
    .turn (.listen kind fun event => (listener event).since past)
  | act => act

/-- A listener that is registered makes no difference between histories that are alike, and no
more does the peer. -/
def Act.Discreet : Act → Prop
  | .turn (.listen _ listener) => ∀ event, (listener event).Discreet
  | .turn (.relink change) => Link.IsBlind change
  | _ => True

/-- An act stands for the same act in which listeners have their memories with them. -/
theorem Act.Discreet.acts {act : Act} (h : act.Discreet) (exact : Prop) :
    (renewal past exact).Acts act (act.since past) := by
  cases act with
  | turn turn =>
    cases turn with
    | listen kind listener => exact .listen kind fun event => ⟨rfl, h event⟩
    | relink change => exact .same (fun _ hsame => .inr (by cases hsame; exact h)) nofun
    | _ => exact .same nofun nofun
  | _ => exact .same nofun nofun

/-- **Over a fresh link an old connection is the twin of a new one.** -/
theorem renewed_twins {dice' : Dice} {exact : Prop} (peer : Endpoint) (link : Link)
    (hidle : c.task.duty = .idle) (hlisteners : c.listeners.Discreet)
    (hdice : exact → dice' = c.dice) :
    (renewal c.journal exact).Twins ((c.claimed peer).attach link)
      (((c.renewed dice').claimed peer).attach link) where
  config := rfl
  watched := rfl
  policy := rfl
  session := rfl
  supply := rfl
  listeners := renewal_registered hlisteners
  link := .same link
  writer := .some (.same [])
  task := .idle hidle rfl
  signals := .inl hidle
  dice := hdice
  journal := ⟨[.entered .connecting], rfl, .cons (.same _) .nil, fun _ => rfl⟩

/-- **A session inherits nothing.**  Whatever a connection has been through, when it is
disconnected it is as good as a new one.  A session is begun over the same link on the old
connection and on a new one with the same settings, addresses and listeners, and from then on the
same is done with both.  Then what is known of the session is the same at any time, as many bytes
lie on the links, which are the same otherwise, and all that has happened since is alike: the
stages, the messages sent and received, the events, and the calls of listeners.  Alike messages
differ in a nonce, a time or a tweak alone, and if chance and the clock are the same too, then all
is the same, down to the bytes. -/
theorem after_reconnect {config : Config} {supply : IdSupply} {dice dice' : Dice}
    {history acts : List Act} {old : Connection}
    (hold : (Connection.new config supply dice).after history = old)
    (hstage : old.session.stage = .disconnected) (hlisteners : old.listeners.Discreet)
    (hacts : ∀ act ∈ acts, act.Discreet) (peer : Endpoint) (link : Link) (now now' : Int64) :
    let c := (old.connect peer link now).1.after acts
    let c' := ((old.renewed dice').connect peer link now').1.after
      (acts.map (Act.since old.journal))
    c'.session = c.session ∧
      (∃ outbound, c'.link = { c.link with outbound } ∧
        outbound.length = c.link.outbound.length) ∧
      ∃ entries, c.journal = old.journal ++ entries ∧
        List.Forall₂ Entry.Alike entries c'.journal ∧
        (dice' = old.dice → now' = now → c'.link = c.link ∧ c'.journal = entries) := by
  have hidle : old.task.duty = .idle := by
    have hfits := (new_after_steps config supply dice history).keep (fun d c => d.Fits c)
      Step.fits (new_fits config supply dice)
    rw [hold] at hfits
    exact idle_of_disconnected hfits hstage
  have hlawful := renewal_lawful old.journal (dice' = old.dice ∧ now' = now)
  have hopened : (renewal old.journal (dice' = old.dice ∧ now' = now)).Twins
      ((old.claimed peer).attach link) (((old.renewed dice').claimed peer).attach link) :=
    renewed_twins peer link hidle hlisteners fun hsure => hsure.1
  have hconnected := ((Twins.start hlawful peer hopened fun hsure => hsure.2).twins).settle hlawful
  have hall : List.Forall₂ (renewal old.journal (dice' = old.dice ∧ now' = now)).Acts acts
      (acts.map (Act.since old.journal)) := by
    rw [List.forall₂_map_right_iff, List.forall₂_same]
    intro act hact
    exact (hacts act hact).acts _
  have htwins := hconnected.after hlawful hall
  rw [connect_of_disconnected hstage, connect_of_disconnected (c := old.renewed dice') rfl]
  obtain ⟨outbound, hlink, hlength, hsame⟩ := htwins.link
  obtain ⟨entries, hjournal, halike, hexact⟩ := htwins.journal
  refine ⟨htwins.session, ⟨outbound, hlink, hlength⟩, entries, hjournal, halike, ?_⟩
  intro hdice hnow
  refine ⟨?_, hexact ⟨hdice, hnow⟩⟩
  rw [hlink, hsame ⟨hdice, hnow⟩]

/-- A listener that tells how much has happened. -/
def counting : Listener .connection := fun _ =>
  .recall fun journal => .say (toString journal.length) .done

/-- How much has happened is the same in histories that are alike. -/
theorem counting_discreet (event : SessionEvent) : (counting event).Discreet := by
  refine ⟨fun _ => trivial, fun journal journal' halike => ?_⟩
  show Reaction.say (toString journal'.length) .done = .say (toString journal.length) .done
  rw [halike.length_eq]

/-- A peer that introduces itself, confirms and is handed a filter leaves the first bytes of a frame
behind.  The owner hands over another filter and ends the session, and then a listener is
registered. -/
def eventfulActs : List Act :=
  [.turn (.watch [someAddress])] ++ ([.connect default {} 0, .turn (.deliver eagerBytes none)] ++
    ([.turn .loadFilter, .disconnect] ++ [.turn (.listen .connection counting)]))

/-- All that a session can leave behind is there, before this one is over and after. -/
theorem after_eventfulActs : ∃ w intake, intake.held ≠ [] ∧
    ((onlooker w).acquainted intake).session.filterLoaded = true ∧
      (Connection.new {} ⟨1⟩ ⟨0⟩).after eventfulActs =
        (((onlooker w).acquainted intake).departed.listen .connection counting).2 := by
  obtain ⟨w, hwatch⟩ := watch_someAddress (Connection.new {} ⟨1⟩ ⟨0⟩)
  have hwatching : (Connection.new {} ⟨1⟩ ⟨0⟩).after [.turn (.watch [someAddress])] = onlooker w :=
    congrArg Prod.fst hwatch
  obtain ⟨intake, hheld, hmet⟩ :=
    after_eager (onlooker w) rfl rfl rfl (List.cons_ne_nil _ _)
  have hdeparted := after_depart (onlooker w) rfl (List.cons_ne_nil _ _) intake
  refine ⟨w, intake, ?_, ?_, ?_⟩
  · rw [hheld]
    decide
  · have hsession : ((onlooker w).acquainted intake).session =
        ((onlooker w).greeted {}).eager.session := by rw [acquainted]
    rw [hsession, session_eager]
  · rw [eventfulActs, after_append, hwatching, after_append, hmet, after_append, hdeparted]
    rfl

/-- An eventful session is over, and nothing of it shows in the next, in which a block is announced
and which the owner ends: neither with other luck and at another time, nor with the same. -/
theorem after_reconnect_of_eventful :
    ∃ old : Connection, (Connection.new {} ⟨1⟩ ⟨0⟩).after eventfulActs = old ∧
      old.session.stage = .disconnected ∧ old.session.services = .bloom ∧
      old.session.userAgent = some offer.userAgent ∧ old.session.version.isSome ∧
      old.listeners.Discreet ∧
      let acts : List Act := [.turn (.deliver newsBytes none), .disconnect]
      let c := (old.connect default {} 3).1.after acts
      let other := ((old.renewed ⟨7⟩).connect default {} 5).1.after
        (acts.map (Act.since old.journal))
      let same := ((old.renewed old.dice).connect default {} 3).1.after
        (acts.map (Act.since old.journal))
      (other.session = c.session ∧
        (∃ outbound, other.link = { c.link with outbound } ∧
          outbound.length = c.link.outbound.length) ∧
        ∃ entries, c.journal = old.journal ++ entries ∧
          List.Forall₂ Entry.Alike entries other.journal) ∧
      same.session = c.session ∧ same.link = c.link ∧ c.journal = old.journal ++ same.journal := by
  obtain ⟨w, intake, -, -, hold⟩ := after_eventfulActs
  let before := ((onlooker w).acquainted intake).departed
  have hknown : before.session = { ((onlooker w).greeted {}).eager.session with
      stage := .disconnected, filterLoaded := false } := by
    rw [session_departed, acquainted]
  rw [session_eager] at hknown
  have hlisteners : before.listeners = .empty :=
    ((SameSettings.acquainted (onlooker w) intake).trans (.departed _)).listeners
  have hdiscreet : (before.listen .connection counting).2.listeners.Discreet := by
    rw [Connection.listen]
    dsimp only
    rw [hlisteners]
    intro kind entry hentry event
    cases kind with
    | connection =>
      cases List.mem_singleton.mp hentry
      exact counting_discreet event
    | transaction => cases hentry
    | block => cases hentry
  have hacts : ∀ act ∈ ([.turn (.deliver newsBytes none), .disconnect] : List Act),
      act.Discreet := by
    intro act hact
    rcases List.mem_cons.mp hact with rfl | hact
    · trivial
    · cases List.mem_singleton.mp hact
      trivial
  have hlistening (c : Connection) : (c.listen .connection counting).2.session = c.session := rfl
  have hsession := (hlistening before).trans hknown
  have hstage : (before.listen .connection counting).2.session.stage = .disconnected := by
    rw [hsession]
  refine ⟨_, hold, hstage, ?_, ?_, ?_, hdiscreet, ?_, ?_⟩
  · rw [hsession]
  · rw [hsession]
  · rw [hsession]
    rfl
  · obtain ⟨hsame, hlink, entries, hjournal, halike, -⟩ :=
      @after_reconnect _ _ _ ⟨7⟩ _ _ _ hold hstage hdiscreet hacts default {} 3 5
    exact ⟨hsame, hlink, entries, hjournal, halike⟩
  · obtain ⟨hsame, -, entries, hjournal, -, hexact⟩ :=
      @after_reconnect _ _ _ (before.listen .connection counting).2.dice _ _ _ hold hstage hdiscreet
        hacts default {} 3 3
    obtain ⟨hlink, hentries⟩ := hexact rfl rfl
    exact ⟨hsame, hlink, by rw [hjournal, hentries]⟩

end LightPeer
