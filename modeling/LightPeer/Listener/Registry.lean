import LightPeer.Bytes.Basic

/-!
# Registered listeners

A registry holds listeners in the order of their registration.  Each has a handle,
by which it can be removed; handles come from one supply, whatever the number of
registries, so a handle never means two listeners.
-/

namespace LightPeer

/-- The handle of a listener. -/
structure ListenerId where
  number : UInt64
  deriving DecidableEq, Repr, Inhabited

/-- The text of a handle. -/
def ListenerId.text (id : ListenerId) : String := "#" ++ toString id.number.toNat

/-- The handles that have not been given out: those from `next` on. -/
structure IdSupply where
  next : UInt64
  deriving DecidableEq, Repr, Inhabited

/-- The next handle, and the supply without it. -/
def IdSupply.take (s : IdSupply) : ListenerId × IdSupply := (⟨s.next⟩, ⟨s.next + 1⟩)

/-- How the call of a listener ended. -/
inductive Outcome
  | ok
  | failed (text : String)
  | panicked
  deriving DecidableEq, Repr, Inhabited

/-- What is reported of a call that did not end well. -/
inductive Complaint
  | failed (kind : String) (id : ListenerId) (text : String)
  | panicked (kind : String) (id : ListenerId)
  deriving DecidableEq, Repr

namespace Complaint

/-- The text of a report, in which handles are shown as `label` says. -/
def text (label : ListenerId → String) : Complaint → String
  | .failed kind id text => kind ++ " listener " ++ label id ++ " failed: " ++ text
  | .panicked kind id => kind ++ " listener " ++ label id ++ " panicked"

/-- The report that an outcome asks for. -/
def ofOutcome? (kind : String) (id : ListenerId) : Outcome → Option Complaint
  | .ok => none
  | .failed text => some (.failed kind id text)
  | .panicked => some (.panicked kind id)

end Complaint

/-- Listeners with their handles, in the order of their registration. -/
structure Registry (α : Type) where
  entries : List (ListenerId × α)
  deriving Inhabited

namespace Registry

variable {α : Type}

/-- No listeners. -/
def empty : Registry α := ⟨[]⟩

/-- The handles in a registry. -/
def ids (r : Registry α) : List ListenerId := r.entries.map Prod.fst

/-- The number of listeners. -/
def size (r : Registry α) : Nat := r.entries.length

/-- Whether there is no listener. -/
def isEmpty (r : Registry α) : Bool := r.entries.isEmpty

/-- The registry with one more listener, behind the others. -/
def add (r : Registry α) (id : ListenerId) (listener : α) : Registry α :=
  ⟨r.entries ++ [(id, listener)]⟩

/-- The registry without the listener of a handle. -/
def remove (r : Registry α) (id : ListenerId) : Registry α :=
  ⟨r.entries.filter fun entry => entry.1 ≠ id⟩

/-- Whether a handle is in the registry. -/
def contains (r : Registry α) (id : ListenerId) : Bool := r.ids.contains id

@[simp] theorem ids_empty : (empty : Registry α).ids = [] := rfl

@[simp] theorem ids_add (r : Registry α) (id : ListenerId) (listener : α) :
    (r.add id listener).ids = r.ids ++ [id] := by
  simp [ids, add]

@[simp] theorem ids_remove (r : Registry α) (id : ListenerId) :
    (r.remove id).ids = r.ids.filter (· ≠ id) := by
  simp [ids, remove, List.filter_map, Function.comp_def]

theorem contains_iff {r : Registry α} {id : ListenerId} : r.contains id ↔ id ∈ r.ids := by
  simp [contains]

end Registry

end LightPeer
