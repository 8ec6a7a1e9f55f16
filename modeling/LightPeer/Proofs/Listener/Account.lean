import LightPeer.Listener.Board

/-!
# What is done on a board

While a board notifies its listeners, these may act on it and notify again.  An account tells all
that is done, in the order of time: what is registered and removed, which notifications begin, and
which listeners are called and how the calls end.  What is done within something else stands behind
it on a higher level, so that an account also tells by whom a listener was called.

The account of a run is taken while it goes on, and taking it does not change the run: the board
that comes out is the same, and it is the one that was there with all that is told done to it.

* `Deed`, `Line` — what is done, and where in the course of things;
* `Script.told`, `Board.callTold`, `Board.callsTold`, `Board.notifyTold` — accounts of a run;
* `Board.notify_eq` — an account is taken of every run, and of no other;
* `Board.notify_mono` — a notification that ends does so at every greater depth;
* `Board.follow` — a board to which all that is told has been done;
* `survivors`, `registered` — the listeners that an account leaves registered.
-/

namespace LightPeer

/-- A listener with its handle. -/
abbrev Member (ε : Type) : Type := ListenerId × (ε → Script ε)

/-- What is done on a board. -/
inductive Deed (ε : Type)
  | added (entry : Member ε)
  | removed (id : ListenerId) (found : Bool)
  | began (event : ε)
  | called (entry : Member ε) (event : ε)
  | ended (kind : String) (id : ListenerId) (outcome : Outcome)

/-- A line of an account: what is done, how many levels above the owner of the board, and the
registry of the board just before. -/
structure Line (ε : Type) where
  level : Nat
  registry : Registry (ε → Script ε)
  deed : Deed ε

variable {ε : Type}

/-- The account of a script on a level; `nested` gives that of a notification within it. -/
def Script.told (nested : String → ε → Board ε → Option (List (Line ε) × Board ε)) (level : Nat) :
    Script ε → Board ε → Option (List (Line ε) × Board ε × Outcome)
  | .finish outcome, b => some ([], b, outcome)
  | .recall next, b => (next b.journal).told nested level b
  | .add listener next, b =>
    let (id, after) := b.add listener
    ((next id).told nested level after).map fun (deeds, result) =>
      (⟨level, b.registry, .added (id, listener)⟩ :: deeds, result)
  | .remove id next, b =>
    let (removed, after) := b.remove id
    ((next removed).told nested level after).map fun (deeds, result) =>
      (⟨level, b.registry, .removed id removed⟩ :: deeds, result)
  | .notify kind event next, b =>
    match nested kind event b with
    | none => none
    | some (deeds, b) =>
      (next.told nested level b).map fun (more, result) => (deeds ++ more, result)

namespace Board

/-- The account of one call.  What the listener does is told on the level above. -/
def callTold (nested : String → ε → Board ε → Option (List (Line ε) × Board ε)) (level : Nat)
    (kind : String) (event : ε) (b : Board ε) (entry : Member ε) :
    Option (List (Line ε) × Board ε) :=
  match (entry.2 event).told nested (level + 1) (b.record (.called entry.1 event)) with
  | none => none
  | some (deeds, after, outcome) =>
    some (⟨level, b.registry, .called entry event⟩ ::
        (deeds ++ [⟨level, after.registry, .ended kind entry.1 outcome⟩]),
      after.settle kind entry.1 outcome)

/-- The account of one call after another. -/
def callsTold (nested : String → ε → Board ε → Option (List (Line ε) × Board ε)) (level : Nat)
    (kind : String) (event : ε) :
    List (Member ε) → Board ε → Option (List (Line ε) × Board ε)
  | [], b => some ([], b)
  | entry :: entries, b =>
    match callTold nested level kind event b entry with
    | none => none
    | some (deeds, b) =>
      (callsTold nested level kind event entries b).map fun (more, b) => (deeds ++ more, b)

/-- The account of a notification.  Its calls are told on the level above it. -/
def notifyTold : Nat → Nat → String → ε → Board ε → Option (List (Line ε) × Board ε)
  | 0, _, _, _, _ => none
  | depth + 1, level, kind, event, b =>
    (callsTold (notifyTold depth (level + 2)) (level + 1) kind event b.registry.entries b).map
      fun (deeds, after) => (⟨level, b.registry, .began event⟩ :: deeds, after)

end Board

section
variable {nested : String → ε → Board ε → Option (Board ε)}
  {told : String → ε → Board ε → Option (List (Line ε) × Board ε)}
  (hnested : ∀ kind event b, nested kind event b = (told kind event b).map Prod.snd)

include hnested

/-- A script leaves the board that its account leaves, so an account is of what has really run. -/
theorem Script.run_eq (level : Nat) (script : Script ε) (b : Board ε) :
    script.run nested b = (script.told told level b).map Prod.snd := by
  induction script generalizing b with
  | finish outcome => rfl
  | «recall» next ih => exact ih b.journal b
  | add listener next _ ih =>
    rw [run, Script.told, Option.map_map]
    exact ih (b.add listener).1 (b.add listener).2
  | remove id next ih =>
    rw [run, Script.told, Option.map_map]
    exact ih (b.remove id).1 (b.remove id).2
  | notify kind event next ih =>
    rw [run, Script.told, hnested]
    cases told kind event b with
    | none => rfl
    | some result =>
      rw [Option.map_some]
      dsimp only
      rw [Option.map_map]
      exact ih result.2

namespace Board

/-- So does a single call, the deeds of which are told a level above it. -/
theorem call_eq (level : Nat) (kind : String) (event : ε) (b : Board ε) (entry : Member ε) :
    call nested kind event b entry = (callTold told level kind event b entry).map Prod.snd := by
  rw [call, callTold, Script.run_eq hnested (level + 1)]
  cases (entry.2 event).told told (level + 1) (b.record (.called entry.1 event)) <;> rfl

/-- And so do calls one after the other. -/
theorem foldlM_call_eq (level : Nat) (kind : String) (event : ε) (entries : List (Member ε))
    (b : Board ε) :
    entries.foldlM (call nested kind event) b =
      (callsTold told level kind event entries b).map Prod.snd := by
  induction entries generalizing b with
  | nil => rfl
  | cons entry entries ih =>
    rw [List.foldlM_cons, callsTold, call_eq hnested level]
    cases callTold told level kind event b entry with
    | none => rfl
    | some result =>
      rw [Option.map_some]
      dsimp only
      rw [Option.map_map]
      exact ih result.2

omit hnested in
/-- **An account is taken of every notification that ends**, and of no other. -/
theorem notify_eq (depth level : Nat) (kind : String) (event : ε) (b : Board ε) :
    notify depth kind event b = (notifyTold depth level kind event b).map Prod.snd := by
  induction depth generalizing level kind event b with
  | zero => rfl
  | succ depth ih =>
    rw [notify, notifyTold, Option.map_map, foldlM_call_eq (ih (level + 2)) (level + 1)]
    rfl

end Board

end

section
variable {nested deeper : String → ε → Board ε → Option (Board ε)} {b b' : Board ε}
  (hdeeper : ∀ kind event b b', nested kind event b = some b' → deeper kind event b = some b')

include hdeeper

/-- A script goes on as it did where more notifications end. -/
theorem Script.run_mono (script : Script ε) {result : Board ε × Outcome}
    (h : script.run nested b = some result) : script.run deeper b = some result := by
  induction script generalizing b with
  | finish outcome => exact h
  | «recall» next ih => exact ih b.journal h
  | add listener next _ ih => exact ih (b.add listener).1 h
  | remove id next ih => exact ih (b.remove id).1 h
  | notify kind event next ih =>
    rw [run] at h ⊢
    split at h
    · cases h
    · next middle hmiddle =>
      rw [hdeeper kind event b middle hmiddle]
      exact ih h

namespace Board

variable {kind : String} {event : ε}

/-- A call that ends under a limit on nested notifications ends in the same way under a higher
one. -/
theorem call_mono {entry : Member ε} (h : call nested kind event b entry = some b') :
    call deeper kind event b entry = some b' := by
  rw [call] at h ⊢
  split at h
  · cases h
  · next acted outcome hacted =>
    rw [Script.run_mono hdeeper (entry.2 event) hacted]
    exact h

/-- The same for calls one after the other, each of which ends before the next. -/
theorem foldlM_call_mono {entries : List (Member ε)}
    (h : entries.foldlM (call nested kind event) b = some b') :
    entries.foldlM (call deeper kind event) b = some b' := by
  induction entries generalizing b with
  | nil => exact h
  | cons entry entries ih =>
    rw [List.foldlM_cons] at h ⊢
    obtain ⟨middle, hmiddle, hrest⟩ := Option.bind_eq_some_iff.mp h
    exact Option.bind_eq_some_iff.mpr ⟨middle, call_mono hdeeper hmiddle, ih hrest⟩

omit hdeeper in
/-- **Where a notification ends, more depth changes nothing.**  The limit on nested notifications is
only there so that one can be followed. -/
theorem notify_mono {depth more : Nat} (hle : depth ≤ more)
    (h : notify depth kind event b = some b') : notify more kind event b = some b' := by
  induction depth generalizing more kind event b b' with
  | zero => cases h
  | succ depth ih =>
    obtain ⟨more, rfl⟩ := Nat.exists_eq_add_of_lt hle
    exact foldlM_call_mono (fun _ _ _ _ hnested => ih (Nat.le_add_right ..) hnested) h

end Board

end

namespace Board

/-- Does to a board what is told. -/
def follow (b : Board ε) : Deed ε → Board ε
  | .added entry => { b with supply := b.supply.take.2, registry := b.registry.add entry.1 entry.2 }
  | .removed id _ => { b with registry := b.registry.remove id }
  | .began _ => b
  | .called entry event => b.record (.called entry.1 event)
  | .ended kind id outcome => b.settle kind id outcome

/-- Does all that is told. -/
def followAll (b : Board ε) (deeds : List (Line ε)) : Board ε :=
  deeds.foldl (fun b t => b.follow t.deed) b

/-- What is told in two parts is done in two parts. -/
theorem followAll_append (b : Board ε) (deeds more : List (Line ε)) :
    b.followAll (deeds ++ more) = (b.followAll deeds).followAll more :=
  List.foldl_append

/-- How a call has ended is written into the journal and changes no registration. -/
theorem registry_settle (b : Board ε) (kind : String) (id : ListenerId) (outcome : Outcome) :
    (b.settle kind id outcome).registry = b.registry := by
  unfold settle
  split <;> rfl

end Board

/-- What is written into the journal of a board. -/
def Deed.written : Deed ε → List (BoardEntry ε)
  | .called entry event => [.called entry.1 event]
  | .ended kind id outcome => (Complaint.ofOutcome? kind id outcome).toList.map .complained
  | _ => []

/-- A deed only adds to the journal. -/
theorem Board.journal_follow (b : Board ε) (deed : Deed ε) :
    (b.follow deed).journal = b.journal ++ deed.written := by
  cases deed with
  | called entry event => rfl
  | ended kind id outcome =>
    rw [follow, settle, Deed.written]
    cases Complaint.ofOutcome? kind id outcome with
    | none => exact (List.append_nil _).symm
    | some complaint => rfl
  | _ => exact (List.append_nil _).symm

/-- **The journal tells of the calls that an account tells of**, and how they ended. -/
theorem Board.journal_followAll (b : Board ε) (deeds : List (Line ε)) :
    (b.followAll deeds).journal = b.journal ++ deeds.flatMap fun t => t.deed.written := by
  induction deeds generalizing b with
  | nil => exact (List.append_nil _).symm
  | cons t deeds ih =>
    rw [List.flatMap_cons, ← List.append_assoc, ← journal_follow]
    exact ih (b.follow t.deed)

/-- Whether a handle is removed. -/
def removes (id : ListenerId) (deeds : List (Line ε)) : Bool :=
  deeds.any fun t =>
    match t.deed with
    | .removed other _ => other = id
    | _ => false

/-- The listeners that are registered and not removed later, in the order of their registration. -/
def survivors : List (Line ε) → List (Member ε)
  | [] => []
  | ⟨_, _, .added entry⟩ :: deeds =>
    if removes entry.1 deeds then survivors deeds else entry :: survivors deeds
  | _ :: deeds => survivors deeds

/-- The listeners that are registered after all that is told, if these were before: those of them
that are not removed, and the others behind. -/
def registered (entries : List (Member ε)) (deeds : List (Line ε)) :
    List (Member ε) :=
  entries.filter (fun entry => ! removes entry.1 deeds) ++ survivors deeds

section
variable {entries : List (Member ε)}

/-- The listeners that are registered after one deed. -/
def Deed.register (entries : List (Member ε)) :
    Deed ε → List (Member ε)
  | .added entry => entries ++ [entry]
  | .removed id _ => entries.filter fun entry => entry.1 ≠ id
  | _ => entries

/-- Only a deed that registers or removes changes who is registered. -/
theorem registry_follow (b : Board ε) (deed : Deed ε) :
    (b.follow deed).registry.entries = deed.register b.registry.entries := by
  cases deed with
  | ended kind id outcome => exact congrArg Registry.entries (b.registry_settle kind id outcome)
  | _ => rfl

/-- Nothing changes where nothing is told. -/
theorem registered_nil : registered entries [] = entries := by
  rw [registered, survivors, List.append_nil, List.filter_eq_self]
  exact fun _ _ => rfl

/-- What is told first is done first, and the rest finds what it has left. -/
theorem registered_cons (t : Line ε) (deeds : List (Line ε)) :
    registered entries (t :: deeds) = registered (t.deed.register entries) deeds := by
  obtain ⟨level, registry, deed⟩ := t
  cases deed with
  | added entry =>
    have hremoves (id : ListenerId) :
        removes id (⟨level, registry, .added entry⟩ :: deeds) = removes id deeds := rfl
    cases hentry : removes entry.1 deeds <;>
      simp [registered, survivors, Deed.register, hremoves, hentry]
  | removed id found =>
    simp [registered, removes, survivors, Deed.register, List.filter_filter, Bool.and_comm, eq_comm]
  | _ => rfl

/-- Who is registered after two accounts depends on the first one only through who is registered
after it. -/
theorem registered_append (deeds more : List (Line ε)) :
    registered entries (deeds ++ more) = registered (registered entries deeds) more := by
  induction deeds generalizing entries with
  | nil => rw [registered_nil, List.nil_append]
  | cons t deeds ih => rw [List.cons_append, registered_cons, registered_cons, ih]

/-- **A board that follows an account holds the listeners that the account leaves registered.** -/
theorem registry_followAll (b : Board ε) (deeds : List (Line ε)) :
    (b.followAll deeds).registry.entries = registered b.registry.entries deeds := by
  induction deeds generalizing b with
  | nil => exact registered_nil.symm
  | cons t deeds ih =>
    calc (b.followAll (t :: deeds)).registry.entries
      _ = ((b.follow t.deed).followAll deeds).registry.entries := rfl
      _ = registered (t.deed.register b.registry.entries) deeds := by rw [ih, registry_follow]
      _ = registered b.registry.entries (t :: deeds) := (registered_cons t deeds).symm

end

end LightPeer
