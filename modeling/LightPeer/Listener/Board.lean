import LightPeer.Listener.Registry

/-!
# A registry whose listeners act on it

A board is a registry by itself, with the supply of its handles and a journal.
What a listener does when it is called is a script: it may recall what has
happened, register and remove listeners and notify all of them again before it ends
well, fails or panics.

`Board.notify` calls the listeners that are registered when it begins, each once
and in order, whatever they do meanwhile.  As scripts can notify without end, the
depth of notifications within notifications is bounded, and one that goes deeper
has no result.
-/

namespace LightPeer

/-- What happened on a board. -/
inductive BoardEntry (ε : Type)
  | called (id : ListenerId) (event : ε)
  | complained (complaint : Complaint)

/-- What a listener does when it is called, one act after another. -/
inductive Script (ε : Type) : Type
  | finish (outcome : Outcome)
  | recall (next : List (BoardEntry ε) → Script ε)
  | add (listener : ε → Script ε) (next : ListenerId → Script ε)
  | remove (id : ListenerId) (next : Bool → Script ε)
  | notify (kind : String) (event : ε) (next : Script ε)

/-- A registry with the supply of its handles and a journal, oldest entry first. -/
structure Board (ε : Type) where
  supply : IdSupply
  registry : Registry (ε → Script ε)
  journal : List (BoardEntry ε)

namespace Board

variable {ε : Type}

/-- A board without listeners. -/
def empty (supply : IdSupply) : Board ε := ⟨supply, .empty, []⟩

/-- Registers a listener. -/
def add (b : Board ε) (listener : ε → Script ε) : ListenerId × Board ε :=
  let (id, supply) := b.supply.take
  (id, { b with supply, registry := b.registry.add id listener })

/-- Removes a listener, and says whether it was registered. -/
def remove (b : Board ε) (id : ListenerId) : Bool × Board ε :=
  (b.registry.contains id, { b with registry := b.registry.remove id })

/-- Writes an entry into the journal. -/
def record (b : Board ε) (entry : BoardEntry ε) : Board ε :=
  { b with journal := b.journal ++ [entry] }

/-- Reports how a call ended, if it did not end well. -/
def settle (b : Board ε) (kind : String) (id : ListenerId) (outcome : Outcome) : Board ε :=
  match Complaint.ofOutcome? kind id outcome with
  | none => b
  | some complaint => b.record (.complained complaint)

end Board

/-- Plays a script on a board; `nested` stands for a notification within it. -/
def Script.run {ε : Type} (nested : String → ε → Board ε → Option (Board ε)) :
    Script ε → Board ε → Option (Board ε × Outcome)
  | .finish outcome, b => some (b, outcome)
  | .recall next, b => (next b.journal).run nested b
  | .add listener next, b =>
    let (id, b) := b.add listener
    (next id).run nested b
  | .remove id next, b =>
    let (removed, b) := b.remove id
    (next removed).run nested b
  | .notify kind event next, b =>
    match nested kind event b with
    | none => none
    | some b => next.run nested b

namespace Board

variable {ε : Type}

/-- Calls one listener and reports how that ended. -/
def call (nested : String → ε → Board ε → Option (Board ε)) (kind : String) (event : ε)
    (b : Board ε) (entry : ListenerId × (ε → Script ε)) : Option (Board ε) :=
  match (entry.2 event).run nested (b.record (.called entry.1 event)) with
  | none => none
  | some (b, outcome) => some (b.settle kind entry.1 outcome)

/-- Calls all listeners that are registered now, if notifications within this one
stay within `depth` levels. -/
def notify : Nat → String → ε → Board ε → Option (Board ε)
  | 0, _, _, _ => none
  | depth + 1, kind, event, b => b.registry.entries.foldlM (call (notify depth) kind event) b

end Board

end LightPeer
