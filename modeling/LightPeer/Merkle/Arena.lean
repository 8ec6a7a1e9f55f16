import LightPeer.Merkle.Shape

/-!
# The nodes of a proof

The nodes that a proof leads to are kept in the order in which they are found, the
root first.  A node knows the places of its children among them, and its hash as soon
as that is known.  A node links to later nodes only, so links cannot be followed for
ever.
-/

namespace LightPeer.Merkle

/-- One of the two sides of a node. -/
inductive Side
  | left
  | right
  deriving DecidableEq

/-- The child on a side. -/
def Node.child (n : Node) : Side → Node
  | .left => n.left
  | .right => n.right

/-- A node among others: its hash and the places of its children, as far as they are known. -/
structure Cell where
  node : Node
  hash : Option Hash256 := none
  left : Option Nat := none
  right : Option Nat := none
  deriving DecidableEq

namespace Cell

/-- The place of the child on a side. -/
def link (cell : Cell) : Side → Option Nat
  | .left => cell.left
  | .right => cell.right

/-- Notes the place of the child on a side. -/
def connect (cell : Cell) (place : Nat) : Side → Cell
  | .left => { cell with left := some place }
  | .right => { cell with right := some place }

@[simp] theorem node_connect (cell : Cell) (place : Nat) (side : Side) :
    (cell.connect place side).node = cell.node := by
  cases side <;> rfl

/-- A link to a child says nothing about the hash of its parent, which is computed later. -/
@[simp] theorem hash_connect (cell : Cell) (place : Nat) (side : Side) :
    (cell.connect place side).hash = cell.hash := by
  cases side <;> rfl

/-- One link is new, the other one stays. -/
theorem link_connect (cell : Cell) (place : Nat) (side other : Side) :
    (cell.connect place side).link other =
      if other = side then some place else cell.link other := by
  cases side <;> cases other <;> rfl

/-- A hash changes no link. -/
@[simp] theorem link_hash (cell : Cell) (hash : Option Hash256) (side : Side) :
    ({ cell with hash } : Cell).link side = cell.link side := by
  cases side <;> rfl

end Cell

/-- The nodes of a proof. -/
structure Arena where
  cells : Array Cell
  nonempty : 0 < cells.size
  /-- Links lead to later nodes. -/
  forward {id child : Nat} {cell : Cell} (side : Side) (hcell : cells[id]? = some cell)
      (hlink : cell.link side = some child) : id < child ∧ child < cells.size

namespace Arena

/-- The root alone. -/
def root : Arena where
  cells := #[{ node := .root }]
  nonempty := by decide
  forward := by
    intro id child cell side hcell hlink
    obtain ⟨_, rfl⟩ := Array.getElem?_eq_some_iff.mp hcell
    cases side <;> simp [Cell.link] at hlink

/-- Notes the hash of a node. -/
def give (a : Arena) (id : Nat) (hash : Hash256) : Arena where
  cells := a.cells.modify id fun cell => { cell with hash := some hash }
  nonempty := by
    rw [Array.size_modify]
    exact a.nonempty
  forward := by
    intro other child cell side hcell hlink
    rw [Array.getElem?_modify] at hcell
    rw [Array.size_modify]
    split at hcell
    · obtain ⟨before, hbefore, rfl⟩ := Option.map_eq_some_iff.mp hcell
      rw [Cell.link_hash] at hlink
      exact a.forward _ hbefore hlink
    · exact a.forward _ hcell hlink

/-- Adds the child of a node on a side, and notes where it is. -/
def grow (a : Arena) (id : Nat) (hid : id < a.cells.size) (side : Side) : Arena where
  cells :=
    (a.cells.push { node := a.cells[id].node.child side }).modify id (·.connect a.cells.size side)
  nonempty := by
    rw [Array.size_modify, Array.size_push]
    exact Nat.succ_pos _
  forward := by
    intro other child cell side' hcell hlink
    rw [Array.getElem?_modify, Array.getElem?_push] at hcell
    rw [Array.size_modify, Array.size_push]
    split at hcell
    · next hsame =>
      subst hsame
      rw [if_neg (Nat.ne_of_lt hid)] at hcell
      obtain ⟨before, hbefore, rfl⟩ := Option.map_eq_some_iff.mp hcell
      rw [Cell.link_connect] at hlink
      split at hlink
      · cases hlink
        exact ⟨hid, Nat.lt_succ_self _⟩
      · have hlinked := a.forward _ hbefore hlink
        exact ⟨hlinked.1, Nat.lt_succ_of_lt hlinked.2⟩
    · split at hcell
      · -- The new node has no links yet.
        cases hcell
        cases side' <;> cases hlink
      · have hlinked := a.forward _ hcell hlink
        exact ⟨hlinked.1, Nat.lt_succ_of_lt hlinked.2⟩

/-- The place of the child on a side. -/
def child? (a : Arena) (id : Nat) (hid : id < a.cells.size) (side : Side) :
    Option { child : Nat // id < child ∧ child < a.cells.size } :=
  match hlink : a.cells[id].link side with
  | none => none
  | some child => some ⟨child, a.forward side (Array.getElem?_eq_getElem hid) hlink⟩

/-- No node comes or goes when a hash is noted. -/
@[simp] theorem size_give (a : Arena) (id : Nat) (hash : Hash256) :
    (a.give id hash).cells.size = a.cells.size :=
  Array.size_modify

/-- Only the child is new, so what was a place stays one. -/
@[simp] theorem size_grow (a : Arena) (id : Nat) (hid : id < a.cells.size) (side : Side) :
    (a.grow id hid side).cells.size = a.cells.size + 1 :=
  Array.size_modify.trans (Array.size_push _)

end Arena

end LightPeer.Merkle
