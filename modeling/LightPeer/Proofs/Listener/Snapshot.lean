import LightPeer.Proofs.Listener.Account

/-!
# A notification calls those that were registered when it began

Listeners that are called may register and remove listeners, end badly, or notify all of them
again.  Whatever they do, the notification goes on with the listeners that it has begun with, each
of them once and in order; and whatever they do to the registry is done at once.

Both are read off the account of all that is done on a board.  Wherever in it a notification
begins, also within another one, its calls are those of the listeners that the account in front of
it leaves registered.

* `ownCalls` — the calls of a notification, without those of notifications within it;
* `Faithful`, `Faithful.append` — what accounts say of notifications and removals;
* `Board.Tells` — an account leads from one board to another;
* `Script.told_tells`, `Board.notifyTold_tells` — accounts of runs;
* `Script.run_snapshots` — the calls of every notification in a history.
-/

namespace LightPeer

variable {ε : Type} {entries : List (Member ε)}
  {deeds more after : List (Line ε)} {level : Nat}

/-- What is told on higher levels, up to the next that is not. -/
def within (level : Nat) (after : List (Line ε)) : List (Line ε) :=
  after.takeWhile fun t => level < t.level

/-- The calls that are told on a level: who is called, and what is notified. -/
def callsOn (level : Nat) (deeds : List (Line ε)) : List (Member ε × ε) :=
  deeds.filterMap fun t =>
    match t.deed with
    | .called entry event => if t.level = level then some (entry, event) else none
    | _ => none

/-- The calls of a notification that has begun on a level. -/
def ownCalls (level : Nat) (after : List (Line ε)) : List (Member ε × ε) :=
  callsOn (level + 1) (within level after)

/-- All of a notification that is told in full is within it. -/
theorem within_eq_self (hdeep : ∀ t ∈ deeds, level < t.level) : within level deeds = deeds := by
  induction deeds with
  | nil => rfl
  | cons t deeds ih =>
    obtain ⟨ht, hdeep⟩ := List.forall_mem_cons.mp hdeep
    rw [within, List.takeWhile_cons_of_pos (by simpa using ht)]
    exact congrArg (t :: ·) (ih hdeep)

/-- A notification has ended where something is told on its level. -/
theorem within_append (hends : ∀ t ∈ more.head?, t.level ≤ level) :
    within level (deeds ++ more) = within level deeds := by
  induction deeds with
  | nil =>
    cases more with
    | nil => rfl
    | cons t more =>
      have hnot : ¬ level < t.level := Nat.not_lt.mpr (hends t rfl)
      rw [within, List.nil_append, List.takeWhile_cons_of_neg (by simpa using hnot)]
      rfl
  | cons t deeds ih =>
    rw [within, within] at ih
    rw [within, within, List.cons_append, List.takeWhile_cons, List.takeWhile_cons, ih]

/-- The calls on a level are told one part after the other. -/
theorem callsOn_append (level : Nat) (deeds more : List (Line ε)) :
    callsOn level (deeds ++ more) = callsOn level deeds ++ callsOn level more :=
  List.filterMap_append

/-- Above a level there are no calls on it, so a nested notification adds none to those of the
notification around it. -/
theorem callsOn_eq_nil (level : Nat) (hdeep : ∀ t ∈ deeds, level < t.level) :
    callsOn level deeds = [] := by
  rw [callsOn, List.filterMap_eq_nil_iff]
  intro t ht
  split
  · rw [if_neg (Nat.ne_of_gt (hdeep t ht))]
  · rfl

/-- What an account says, if these listeners were registered before.  At any time the registry holds
the listeners that are registered after all that was told before.  Every notification calls those
that the registry held when it began, and every removal finds a handle if and only if the registry
holds it. -/
structure Faithful (entries : List (Member ε)) (deeds : List (Line ε)) :
    Prop where
  holds : ∀ before t after, deeds = before ++ t :: after →
    t.registry.entries = registered entries before
  calls : ∀ before level registry event after,
    deeds = before ++ ⟨level, registry, .began event⟩ :: after →
      ownCalls level after = registry.entries.map fun entry => (entry, event)
  finds : ∀ before level registry id found after,
    deeds = before ++ ⟨level, registry, .removed id found⟩ :: after →
      (found = true ↔ id ∈ registry.ids)

/-- Where something stands in an account of two parts. -/
theorem exists_of_append_eq_append_cons {before : List (Line ε)} {t : Line ε}
    (h : deeds ++ more = before ++ t :: after) :
    (∃ rest, deeds = before ++ t :: rest ∧ after = rest ++ more) ∨
      ∃ rest, before = deeds ++ rest ∧ more = rest ++ t :: after := by
  rw [List.append_eq_append_iff] at h
  rcases h with ⟨rest, hbefore, hmore⟩ | ⟨rest, hdeeds, hafter⟩
  · exact .inr ⟨rest, hbefore, hmore⟩
  · cases rest with
    | nil => exact .inr ⟨[], by simpa using hdeeds.symm, hafter.symm⟩
    | cons t' rest =>
      obtain ⟨rfl, rfl⟩ := List.cons_eq_cons.mp hafter
      exact .inl ⟨rest, hdeeds, rfl⟩

namespace Faithful

/-- Where nothing is told there is nothing that could be wrong. -/
theorem nil (entries : List (Member ε)) : Faithful entries [] := by
  have hnothing {before after : List (Line ε)} {t : Line ε} : [] ≠ before ++ t :: after := by
    simp
  constructor
  · intro before t after hsplit
    exact absurd hsplit hnothing
  · intro before level registry event after hsplit
    exact absurd hsplit hnothing
  · intro before level registry id found after hsplit
    exact absurd hsplit hnothing

/-- **Faithful accounts come one behind the other**, if the first has come to its end. -/
theorem append (h : Faithful entries deeds) (hmore : Faithful (registered entries deeds) more)
    (hends : ∀ t ∈ deeds, ∀ event, t.deed = .began event → ∀ t' ∈ more.head?, t'.level ≤ t.level) :
    Faithful entries (deeds ++ more) := by
  constructor
  · intro before t after hsplit
    rcases exists_of_append_eq_append_cons hsplit with ⟨rest, rfl, rfl⟩ | ⟨rest, rfl, rfl⟩
    · exact h.holds before t rest rfl
    · rw [registered_append]
      exact hmore.holds rest t after rfl
  · intro before level registry event after hsplit
    rcases exists_of_append_eq_append_cons hsplit with ⟨rest, rfl, rfl⟩ | ⟨rest, rfl, rfl⟩
    · have hstops := hends _ (List.mem_append_right _ List.mem_cons_self) event rfl
      rw [ownCalls, within_append hstops]
      exact h.calls before level registry event rest rfl
    · exact hmore.calls rest level registry event after rfl
  · intro before level registry id found after hsplit
    rcases exists_of_append_eq_append_cons hsplit with ⟨rest, rfl, rfl⟩ | ⟨rest, rfl, rfl⟩
    · exact h.finds before level registry id found rest rfl
    · exact hmore.finds rest level registry id found after rfl

/-- One deed that is no notification has nothing within it that the account could be wrong about. -/
theorem singleton {registry : Registry (ε → Script ε)} {deed : Deed ε}
    (hbegan : ∀ event, deed ≠ .began event)
    (hremoved : ∀ id found, deed = .removed id found → (found = true ↔ id ∈ registry.ids)) :
    Faithful registry.entries [⟨level, registry, deed⟩] := by
  have honly {before after : List (Line ε)} {t : Line ε}
      (h : [⟨level, registry, deed⟩] = before ++ t :: after) :
      before = [] ∧ ⟨level, registry, deed⟩ = t := by
    cases before with
    | nil => exact ⟨rfl, (List.cons_eq_cons.mp h).1⟩
    | cons first before => simp at h
  constructor
  · intro before t after hsplit
    obtain ⟨rfl, rfl⟩ := honly hsplit
    rw [registered_nil]
  · intro before level' registry' event after hsplit
    cases (honly hsplit).2
    exact absurd rfl (hbegan event)
  · intro before level' registry' id found after hsplit
    cases (honly hsplit).2
    exact hremoved id found rfl

/-- A call changes nothing by itself.  What the listener does is told behind it, on the level
above. -/
theorem called {registry : Registry (ε → Script ε)} (h : Faithful registry.entries deeds)
    (level : Nat) (entry : Member ε) (event : ε) :
    Faithful registry.entries (⟨level, registry, .called entry event⟩ :: deeds) := by
  have hfirst : Faithful registry.entries [⟨level, registry, .called entry event⟩] :=
    .singleton nofun nofun
  refine hfirst.append ?_ (by simp)
  rw [registered_cons, registered_nil]
  exact h

/-- **A notification that has called its listeners** has called those that were registered when it
began, each once, in their order. -/
theorem began {registry : Registry (ε → Script ε)} {event : ε}
    (h : Faithful registry.entries deeds) (hdeep : ∀ t ∈ deeds, level < t.level)
    (hcalls : callsOn (level + 1) deeds = registry.entries.map fun entry => (entry, event)) :
    Faithful registry.entries (⟨level, registry, .began event⟩ :: deeds) := by
  constructor
  · intro before t after hsplit
    cases before with
    | nil =>
      rw [← (List.cons_eq_cons.mp hsplit).1, registered_nil]
    | cons first before =>
      obtain ⟨rfl, hrest⟩ := List.cons_eq_cons.mp hsplit
      rw [registered_cons]
      exact h.holds before t after hrest
  · intro before level' registry' event' after hsplit
    cases before with
    | nil =>
      obtain ⟨hfirst, rfl⟩ := List.cons_eq_cons.mp hsplit
      cases hfirst
      rw [ownCalls, within_eq_self hdeep]
      exact hcalls
    | cons first before =>
      exact h.calls before level' registry' event' after (List.cons_eq_cons.mp hsplit).2
  · intro before level' registry' id found after hsplit
    cases before with
    | nil => cases (List.cons_eq_cons.mp hsplit).1
    | cons first before =>
      exact h.finds before level' registry' id found after (List.cons_eq_cons.mp hsplit).2

end Faithful

/-- An account on a level leads from one board to another, and is faithful. -/
structure Board.Tells (level : Nat) (b : Board ε) (deeds : List (Line ε)) (b' : Board ε) :
    Prop where
  follows : b' = b.followAll deeds
  deep : ∀ t ∈ deeds, level ≤ t.level
  starts : ∀ t ∈ deeds.head?, t.level ≤ level
  faithful : Faithful b.registry.entries deeds

section
variable {b b' b'' : Board ε} {outcome : Outcome}
  {told : String → ε → Board ε → Option (List (Line ε) × Board ε)}

namespace Board.Tells

/-- A board that nothing is done on leads to itself. -/
theorem nil (level : Nat) (b : Board ε) : Tells level b [] b :=
  ⟨rfl, nofun, nofun, .nil _⟩

/-- Who is registered at the end is what the account comes to, from who was at its beginning. -/
theorem entries_eq (h : Tells level b deeds b') :
    b'.registry.entries = registered b.registry.entries deeds := by
  rw [h.follows, registry_followAll]

/-- One account behind another, on the same level. -/
theorem append (h : Tells level b deeds b') (hmore : Tells level b' more b'') :
    Tells level b (deeds ++ more) b'' where
  follows := by rw [hmore.follows, h.follows, followAll_append]
  deep := List.forall_mem_append.mpr ⟨h.deep, hmore.deep⟩
  starts := by
    intro t ht
    rw [List.head?_append] at ht
    rcases Option.or_eq_some_iff.mp ht with hfirst | ⟨-, hsecond⟩
    · exact h.starts t hfirst
    · exact hmore.starts t hsecond
  faithful := by
    refine h.faithful.append (h.entries_eq ▸ hmore.faithful) ?_
    intro t ht event _ t' ht'
    exact Nat.le_trans (hmore.starts t' ht') (h.deep t ht)

/-- A listener is registered, and the account says so under the handle that was given out. -/
theorem added (level : Nat) (b : Board ε) (listener : ε → Script ε) :
    Tells level b [⟨level, b.registry, .added ((b.add listener).1, listener)⟩]
      (b.add listener).2 where
  follows := rfl
  deep := by simp
  starts := by simp
  faithful := .singleton nofun nofun

/-- A handle is removed, if it is there, and the account says so either way. -/
theorem removed (level : Nat) (b : Board ε) (id : ListenerId) :
    Tells level b [⟨level, b.registry, .removed id (b.remove id).1⟩] (b.remove id).2 where
  follows := rfl
  deep := by simp
  starts := by simp
  faithful := by
    refine .singleton nofun ?_
    rintro _ _ ⟨⟩
    exact Registry.contains_iff

/-- A listener is called, and what it does is told above. -/
theorem called {entry : Member ε} {event : ε}
    (h : Tells (level + 1) (b.record (.called entry.1 event)) deeds b') :
    Tells level b (⟨level, b.registry, .called entry event⟩ :: deeds) b' where
  follows := h.follows
  deep := List.forall_mem_cons.mpr ⟨Nat.le_refl _, fun t ht => Nat.le_of_lt (h.deep t ht)⟩
  starts := by simp
  faithful := h.faithful.called level entry event

/-- A call ends, and how it has ended is written into the journal without any change to who is
registered. -/
theorem ended (level : Nat) (b : Board ε) (kind : String) (id : ListenerId) (outcome : Outcome) :
    Tells level b [⟨level, b.registry, .ended kind id outcome⟩] (b.settle kind id outcome) where
  follows := rfl
  deep := by simp
  starts := by simp
  faithful := .singleton nofun nofun

/-- A notification begins, and its calls are told above. -/
theorem began {event : ε} (h : Tells (level + 1) b deeds b')
    (hcalls : callsOn (level + 1) deeds = b.registry.entries.map fun entry => (entry, event)) :
    Tells level b (⟨level, b.registry, .began event⟩ :: deeds) b' where
  follows := h.follows
  deep := List.forall_mem_cons.mpr ⟨Nat.le_refl _, fun t ht => Nat.le_of_lt (h.deep t ht)⟩
  starts := by simp
  faithful := h.faithful.began h.deep hcalls

end Board.Tells

/-- **The account of a script**, where notifications within it are told on its level. -/
theorem Script.told_tells (hnested : ∀ kind event b deeds b',
      told kind event b = some (deeds, b') → Board.Tells level b deeds b') (script : Script ε)
    (h : script.told told level b = some (deeds, b', outcome)) : Board.Tells level b deeds b' := by
  induction script generalizing b deeds with
  | finish outcome =>
    cases h
    exact .nil level _
  | «recall» next ih => exact ih b.journal h
  | add listener next _ ih =>
    obtain ⟨⟨rest, result⟩, hrest, hresult⟩ := Option.map_eq_some_iff.mp h
    cases hresult
    exact (Board.Tells.added level b listener).append (ih _ hrest)
  | remove id next ih =>
    obtain ⟨⟨rest, result⟩, hrest, hresult⟩ := Option.map_eq_some_iff.mp h
    cases hresult
    exact (Board.Tells.removed level b id).append (ih _ hrest)
  | notify kind event next ih =>
    rw [Script.told] at h
    split at h
    · cases h
    · next first middle hfirst =>
      obtain ⟨⟨rest, result⟩, hrest, hresult⟩ := Option.map_eq_some_iff.mp h
      cases hresult
      exact (hnested kind event b first middle hfirst).append (ih hrest)

namespace Board

variable {kind : String} {event : ε} {entry : Member ε}

/-- **The account of one call** leads from the board before it to that behind it, and is faithful if
those of nested notifications are. -/
theorem callTold_tells (hnested : ∀ kind event b deeds b',
      told kind event b = some (deeds, b') → Tells (level + 1) b deeds b')
    (h : callTold told level kind event b entry = some (deeds, b')) :
    Tells level b deeds b' ∧ callsOn level deeds = [(entry, event)] := by
  rw [callTold] at h
  split at h
  · cases h
  · next acts acted outcome hacts =>
    cases h
    have hscript := Script.told_tells hnested (entry.2 event) hacts
    refine ⟨hscript.called.append (.ended level acted kind entry.1 outcome), ?_⟩
    have hnone := callsOn_eq_nil level hscript.deep
    rw [← List.cons_append, callsOn_append, ← List.singleton_append, callsOn_append, hnone]
    simp [callsOn]

/-- **The account of a row of calls**, each of which begins on the board that the one before has
left. -/
theorem callsTold_tells (hnested : ∀ kind event b deeds b',
      told kind event b = some (deeds, b') → Tells (level + 1) b deeds b')
    (h : callsTold told level kind event entries b = some (deeds, b')) :
    Tells level b deeds b' ∧ callsOn level deeds = entries.map fun entry => (entry, event) := by
  induction entries generalizing b deeds with
  | nil =>
    cases h
    exact ⟨.nil level _, rfl⟩
  | cons entry entries ih =>
    rw [callsTold] at h
    split at h
    · cases h
    · next first middle hfirst =>
      obtain ⟨⟨rest, last⟩, hrest, hlast⟩ := Option.map_eq_some_iff.mp h
      cases hlast
      obtain ⟨htells, hcalls⟩ := callTold_tells hnested hfirst
      obtain ⟨htells', hcalls'⟩ := ih hrest
      refine ⟨htells.append htells', ?_⟩
      rw [callsOn_append, hcalls, hcalls', List.map_cons, List.singleton_append]

/-- **The account of a notification**, and of those within it. -/
theorem notifyTold_tells {depth : Nat}
    (h : notifyTold depth level kind event b = some (deeds, b')) : Tells level b deeds b' := by
  induction depth generalizing level kind event b deeds b' with
  | zero => cases h
  | succ depth ih =>
    obtain ⟨⟨calls, last⟩, hcalls, hlast⟩ := Option.map_eq_some_iff.mp h
    cases hlast
    obtain ⟨htells, hown⟩ := callsTold_tells (fun _ _ _ _ _ hnested => ih hnested) hcalls
    exact htells.began hown

end Board

end

/-- What the account of a history says, which began with an empty registry.  At any time the
registry holds the listeners that were registered and have not been removed, in the order of their
registration.  A notification calls those that the registry holds when it begins, each once, in this
order, and with its event; a removal finds what the registry holds. -/
structure Snapshots (supply : IdSupply) (deeds : List (Line ε)) (b : Board ε) : Prop where
  follows : b = (Board.empty supply).followAll deeds
  journal : b.journal = deeds.flatMap fun t => t.deed.written
  remains : b.registry.entries = survivors deeds
  holds : ∀ before t after, deeds = before ++ t :: after → t.registry.entries = survivors before
  calls : ∀ before level registry event after,
    deeds = before ++ ⟨level, registry, .began event⟩ :: after →
      ownCalls level after = registry.entries.map fun entry => (entry, event)
  finds : ∀ before level registry id found after,
    deeds = before ++ ⟨level, registry, .removed id found⟩ :: after →
      (found = true ↔ id ∈ registry.ids)

/-- **Every notification in a history calls the listeners that were registered when it began**,
those within other notifications included.  The owner of the board does what a script does, and
listeners do as they like; only, all notifications come to an end. -/
theorem Script.run_snapshots (supply : IdSupply) {depth : Nat} {history : Script ε} {b : Board ε}
    {outcome : Outcome}
    (h : history.run (Board.notify depth) (.empty supply) = some (b, outcome)) :
    ∃ deeds, history.told (Board.notifyTold depth 0) 0 (.empty supply) = some (deeds, b, outcome) ∧
      Snapshots supply deeds b := by
  rw [Script.run_eq (Board.notify_eq depth 0) 0] at h
  obtain ⟨⟨deeds, _⟩, htold, hresult⟩ := Option.map_eq_some_iff.mp h
  cases hresult
  have htells : Board.Tells 0 (.empty supply) deeds b :=
    told_tells (fun _ _ _ _ _ hnested => Board.notifyTold_tells hnested) history htold
  have hjournal : b.journal = deeds.flatMap fun t => t.deed.written := by
    rw [htells.follows, Board.journal_followAll]
    rfl
  exact ⟨deeds, htold, htells.follows, hjournal, htells.entries_eq, htells.faithful.holds,
    htells.faithful.calls, htells.faithful.finds⟩

/-- A listener that, when it is told something, removes itself and the next one, registers another,
notifies it of nothing, and fails. -/
def meddler : Nat → Script Nat
  | 0 => .finish .ok
  | _ => .remove ⟨1⟩ fun _ => .remove ⟨2⟩ fun _ => .add (fun _ => .finish .ok) fun _ =>
    .notify "word" 0 (.finish (.failed "meddled"))

/-- The second listener is called though it has been removed, and panics.  The third is called by
the notification that has begun when it was there, and by the last. -/
theorem Script.run_snapshots_meddled :
    let history : Script Nat := .add meddler fun _ => .add (fun _ => .finish .panicked) fun _ =>
      .notify "word" 1 (.notify "word" 2 (.finish .ok))
    ∃ b deeds, history.run (Board.notify 3) (.empty ⟨1⟩) = some (b, .ok) ∧
      b.registry.ids = [⟨3⟩] ∧
      history.told (Board.notifyTold 3 0) 0 (.empty ⟨1⟩) = some (deeds, b, .ok) ∧
      Snapshots ⟨1⟩ deeds b := by
  intro history
  have hids : (history.run (Board.notify 3) (.empty ⟨1⟩)).map
      (fun result => (result.1.registry.ids, result.2)) = some ([⟨3⟩], .ok) := by rfl
  obtain ⟨⟨b, outcome⟩, hrun, hresult⟩ := Option.map_eq_some_iff.mp hids
  obtain ⟨hids, rfl⟩ := Prod.mk.inj hresult
  obtain ⟨deeds, htold, hsnapshots⟩ := Script.run_snapshots ⟨1⟩ hrun
  exact ⟨b, deeds, hrun, hids, htold, hsnapshots⟩

end LightPeer
