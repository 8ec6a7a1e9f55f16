import LightPeer.Merkle.Descent

/-!
# The nodes of a proof and their hashes

The second pass goes down from the root along the links and notes the hash of every node that it
comes back to.  It changes hashes only (`fill_keeps`), so links and places stay as the walk has
left them.

An arena holds a part of a tree if its nodes are linked as the part says (`Arena.Holds`): those
below the topmost node stand behind each other, both children in front of all that is below
them.  From such an arena the second pass gets the hash of the part, or the reason why it has
none (`Arena.Holds.fills`), and it touches no other nodes.
-/

namespace LightPeer.Merkle

namespace Arena

variable {a b c : Arena} {id child next : Nat} {cell : Cell} {side : Side} {hash : Hash256}
  {node : Node} {shown : Shown}

/-- Where a node is found, there is a place for it. -/
theorem size_of_cell (hcell : a.cells[id]? = some cell) : id < a.cells.size :=
  (Array.getElem?_eq_some_iff.mp hcell).1

/-- A hash that is noted at one place changes no other place, and nothing but the hash there. -/
theorem getElem?_give (a : Arena) (id : Nat) (hash : Hash256) (other : Nat) :
    (a.give id hash).cells[other]? =
      if id = other then a.cells[other]?.map fun cell => { cell with hash := some hash }
      else a.cells[other]? :=
  Array.getElem?_modify

/-- The parent links to the child, on the side for which it was added. -/
theorem getElem?_grow_self (side : Side) (hid : id < a.cells.size)
    (hcell : a.cells[id]? = some cell) :
    (a.grow id hid side).cells[id]? = some (cell.connect a.cells.size side) := by
  rw [grow, Array.getElem?_modify, if_pos rfl, Array.getElem?_push, if_neg (Nat.ne_of_lt hid),
    hcell]
  rfl

/-- The child stands behind all others, without a hash and without children. -/
theorem getElem?_grow_size (side : Side) (hid : id < a.cells.size)
    (hcell : a.cells[id]? = some cell) :
    (a.grow id hid side).cells[a.cells.size]? = some { node := cell.node.child side } := by
  obtain ⟨_, rfl⟩ := Array.getElem?_eq_some_iff.mp hcell
  rw [grow, Array.getElem?_modify, if_neg (Nat.ne_of_lt hid), Array.getElem?_push_size]

/-- A child that is added touches its parent and the place behind all others, and these alone. -/
theorem getElem?_grow_of_ne (hid : id < a.cells.size) {other : Nat} (hself : other ≠ id)
    (hsize : other ≠ a.cells.size) : (a.grow id hid side).cells[other]? = a.cells[other]? := by
  rw [grow, Array.getElem?_modify, if_neg hself.symm, Array.getElem?_push, if_neg hsize]

/-- The link of a node is followed to where it leads, which is further back than the node itself. -/
theorem child?_eq_some (side : Side) (hid : id < a.cells.size) (hcell : a.cells[id]? = some cell)
    (hlink : cell.link side = some child) :
    a.child? id hid side = some ⟨child, a.forward side hcell hlink⟩ := by
  obtain ⟨_, rfl⟩ := Array.getElem?_eq_some_iff.mp hcell
  unfold child?
  split
  · next hnone =>
    rw [hlink] at hnone
    cases hnone
  · next other hother =>
    rw [hlink] at hother
    cases hother
    rfl

/-- No child is found on a side on which the node has no link. -/
theorem child?_eq_none (side : Side) (hid : id < a.cells.size) (hcell : a.cells[id]? = some cell)
    (hlink : cell.link side = none) : a.child? id hid side = none := by
  obtain ⟨_, rfl⟩ := Array.getElem?_eq_some_iff.mp hcell
  unfold child?
  split
  · rfl
  · next other hother =>
    rw [hlink] at hother
    cases hother

/-- Nothing but hashes has changed, and none has been lost. -/
def Kept (a b : Arena) : Prop :=
  ∀ (id : Nat) (cell : Cell), a.cells[id]? = some cell →
    ∃ hash, b.cells[id]? = some { cell with hash } ∧ (cell.hash.isSome → hash.isSome)

/-- An arena is kept when nothing is done. -/
theorem Kept.refl (a : Arena) : a.Kept a := fun _ cell hcell => ⟨cell.hash, hcell, fun h => h⟩

/-- What is kept twice is kept, for a hash that is there before the first change is there after the
second. -/
theorem Kept.trans (h : a.Kept b) (h' : b.Kept c) : a.Kept c := by
  intro id cell hcell
  obtain ⟨hash, hb, hsome⟩ := h id cell hcell
  obtain ⟨hash', hc, hsome'⟩ := h' id _ hb
  exact ⟨hash', hc, fun hknown => hsome' (hsome hknown)⟩

/-- Noting a hash loses nothing, also where one is noted already. -/
theorem kept_give (a : Arena) (id : Nat) (hash : Hash256) : a.Kept (a.give id hash) := by
  intro other cell hcell
  rw [getElem?_give, hcell]
  split
  · exact ⟨some hash, rfl, fun _ => rfl⟩
  · exact ⟨cell.hash, rfl, fun h => h⟩

/-- **The second pass changes nothing but hashes**, and none of those that are there already is
lost. -/
theorem fill_keeps (hid : id < a.cells.size) {filled : Filled a.cells.size}
    (hfill : a.fill id hid = .ok filled) : a.Kept filled.arena := by
  fun_induction Arena.fill a id hid with
  | case1 a =>
    cases hfill
    exact .refl a
  | case4 a id _ _ _ _ _ _ b _ hleft _ ih =>
    cases hfill
    exact (ih hleft).trans (kept_give b id _)
  | case7 a id _ _ _ _ _ _ b _ hleft _ _ _ _ c _ hright _ _ ihl ihr =>
    cases hfill
    exact ((ihl hleft).trans (ihr hright)).trans (kept_give c id _)
  | _ => cases hfill

end Arena

/-- How many nodes there are below the topmost one. -/
def Shown.nodesBelow : Shown → Nat
  | .given .. => 0
  | .fork _ _ left right => 2 + left.nodesBelow + right.nodesBelow
  | .lone child => 1 + child.nodesBelow

namespace Arena

variable {a b c : Arena} {id next : Nat} {node : Node} {shown : Shown}

/-- The arena has this part of a tree.  The topmost node is at the place `id`, and what is below it
stands from the place `next` on, the children of a node first. -/
def Holds (a : Arena) : Nat → Nat → Node → Shown → Prop
  | id, _, node, .given hash _ => a.cells[id]? = some { node, hash := some hash }
  | id, next, node, .fork level index left right =>
    a.cells[id]? = some { node, left := some next, right := some (next + 1) } ∧
      node.right = ⟨level, UInt32.ofNat index⟩ ∧
      a.Holds next (next + 2) node.left left ∧
      a.Holds (next + 1) (next + 2 + left.nodesBelow) node.right right
  | id, next, node, .lone child =>
    a.cells[id]? = some { node, left := some next } ∧ a.Holds next (next + 1) node.left child

/-- What a part is depends on its own nodes alone. -/
theorem Holds.congr (h : a.Holds id next node shown) (hself : b.cells[id]? = a.cells[id]?)
    (hbelow : ∀ other, next ≤ other → other < next + shown.nodesBelow →
      b.cells[other]? = a.cells[other]?) : b.Holds id next node shown := by
  induction shown generalizing id next node with
  | given hash matched => exact hself.trans h
  | fork level index left right ihl ihr =>
    obtain ⟨hcell, hnode, hl, hr⟩ := h
    simp only [Shown.nodesBelow] at hbelow
    refine ⟨hself.trans hcell, hnode, ihl hl (hbelow _ (by omega) (by omega)) ?_,
      ihr hr (hbelow _ (by omega) (by omega)) ?_⟩
    · intro other hfrom hto
      exact hbelow other (by omega) (by omega)
    · intro other hfrom hto
      exact hbelow other (by omega) (by omega)
  | lone child ih =>
    obtain ⟨hcell, hc⟩ := h
    simp only [Shown.nodesBelow] at hbelow
    refine ⟨hself.trans hcell, ih hc (hbelow _ (by omega) (by omega)) ?_⟩
    intro other hfrom hto
    exact hbelow other (by omega) (by omega)

/-- The topmost node of a part. -/
theorem Holds.cell (h : a.Holds id next node shown) :
    ∃ cell, a.cells[id]? = some cell ∧ cell.node = node := by
  cases shown with
  | given => exact ⟨_, h, rfl⟩
  | fork => exact ⟨_, h.1, rfl⟩
  | lone => exact ⟨_, h.1, rfl⟩

/-- No node has changed but those of a part. -/
def Besides (a b : Arena) (id next : Nat) (shown : Shown) : Prop :=
  ∀ other, other ≠ id → other < next ∨ next + shown.nodesBelow ≤ other →
    b.cells[other]? = a.cells[other]?

/-- Going down from the topmost node of a part, the second pass comes to the hash of the part or to
the reason why it has none, and leaves the other nodes alone. -/
def Fills (a : Arena) (id next : Nat) (shown : Shown) : Prop :=
  ∀ hid : id < a.cells.size,
    match shown.root with
    | .error cause => a.fill id hid = .error cause
    | .ok hash => ∃ b hb, a.fill id hid = .ok ⟨hash, b, hb⟩ ∧ a.Besides b id next shown

/-- A node that has taken a hash from the proof is not gone below. -/
theorem Fills.given {hash : Hash256} {matched : Bool}
    (hcell : a.cells[id]? = some { node, hash := some hash }) :
    a.Fills id next (.given hash matched) := by
  intro hid
  have hknown : a.cells[id].hash = some hash := by
    rw [(Array.getElem?_eq_some_iff.mp hcell).2]
  rw [Shown.root, Arena.fill, hknown]
  exact ⟨a, rfl, rfl, fun _ _ _ => rfl⟩

/-- The hash of an only child is paired with itself. -/
theorem Fills.lone {child : Shown} (hbefore : id < next)
    (hcell : a.cells[id]? = some { node, left := some next })
    (hchild : a.Fills next (next + 1) child) : a.Fills id next (.lone child) := by
  intro hid
  have hunknown : a.cells[id].hash = none := by
    rw [(Array.getElem?_eq_some_iff.mp hcell).2]
  have hlink : a.child? id hid .left = _ := child?_eq_some .left hid hcell rfl
  have hbelow := hchild (a.forward .left hcell rfl).2
  rw [Shown.root, Arena.fill, hunknown]
  simp only [hlink]
  cases hroot : child.root with
  | error cause =>
    rw [hroot] at hbelow
    rw [hbelow]
    rfl
  | ok hash =>
    rw [hroot] at hbelow
    obtain ⟨b, hb, hfilled, hbesides⟩ := hbelow
    have hcell' : b.cells[id]? = some { node, left := some next } := by
      rw [hbesides id (Nat.ne_of_lt hbefore) (.inl (by omega)), hcell]
    have hnone : b.child? id (by omega) .right = none := child?_eq_none .right _ hcell' rfl
    simp only [hfilled, hnone]
    refine ⟨_, (size_give ..).trans hb, rfl, fun other hother hplace => ?_⟩
    rw [getElem?_give, if_neg hother.symm]
    simp only [Shown.nodesBelow] at hplace
    exact hbesides other (by omega) (by omega)

/-- The hashes of two children are paired, unless they are the same.  The right child is gone below
in the arena that the left one has left, where it is what it was. -/
theorem Fills.fork {level index : Nat} {left right : Shown} (hbefore : id < next)
    (hcell : a.cells[id]? = some { node, left := some next, right := some (next + 1) })
    (hnode : node.right = ⟨level, UInt32.ofNat index⟩)
    (hright : ∃ cell, a.cells[next + 1]? = some cell ∧ cell.node = node.right)
    (hl : a.Fills next (next + 2) left)
    (hr : ∀ b : Arena, a.Besides b next (next + 2) left →
      b.Fills (next + 1) (next + 2 + left.nodesBelow) right) :
    a.Fills id next (.fork level index left right) := by
  intro hid
  have hunknown : a.cells[id].hash = none := by
    rw [(Array.getElem?_eq_some_iff.mp hcell).2]
  have hlink : a.child? id hid .left = _ := child?_eq_some .left hid hcell rfl
  have hbelow := hl (a.forward .left hcell rfl).2
  rw [Shown.root, Arena.fill, hunknown]
  simp only [hlink]
  cases hrootLeft : left.root with
  | error cause =>
    rw [hrootLeft] at hbelow
    rw [hbelow]
    rfl
  | ok leftHash =>
    rw [hrootLeft] at hbelow
    obtain ⟨b, hb, hfilled, hbesides⟩ := hbelow
    -- The first call has left the parent and the right child as they were.
    have hcell' : b.cells[id]? = some { node, left := some next, right := some (next + 1) } := by
      rw [hbesides id (by omega) (.inl (by omega)), hcell]
    have hlink' : b.child? id (by omega) .right = _ := child?_eq_some .right _ hcell' rfl
    have hbehind := hr b hbesides (b.forward .right hcell' rfl).2
    simp only [hfilled, hlink', bind, Except.bind]
    cases hrootRight : right.root with
    | error cause =>
      rw [hrootRight] at hbehind
      rw [hbehind]
    | ok rightHash =>
      rw [hrootRight] at hbehind
      obtain ⟨c, hc, hfilled', hbesides'⟩ := hbehind
      simp only [hfilled']
      by_cases hsame : leftHash = rightHash
      · rw [if_pos hsame, if_pos hsame.symm]
        -- The hash of the right child is known by now, but it is the same node.
        obtain ⟨cell, hfound, hsame'⟩ := hright
        have hfound' : b.cells[next + 1]? = some cell := by
          rw [hbesides (next + 1) (by omega) (.inl (by omega)), hfound]
        obtain ⟨hash, hlast, -⟩ := fill_keeps _ hfilled' _ _ hfound'
        rw [(Array.getElem?_eq_some_iff.mp hlast).2, ← hnode, ← hsame']
      · rw [if_neg hsame, if_neg (Ne.symm hsame)]
        refine ⟨_, (size_give ..).trans (hc.trans hb), rfl, fun other hother hplace => ?_⟩
        rw [getElem?_give, if_neg hother.symm]
        simp only [Shown.nodesBelow] at hplace
        rw [hbesides' other (by omega) (by omega), hbesides other (by omega) (by omega)]

/-- **The second pass gets the hash of the part that an arena has**, and leaves the other nodes
alone. -/
theorem Holds.fills (h : a.Holds id next node shown) (hbefore : id < next) :
    a.Fills id next shown := by
  induction shown generalizing a id next node with
  | given hash matched => exact .given h
  | lone child ih =>
    obtain ⟨hcell, hc⟩ := h
    exact .lone hbefore hcell (ih hc (Nat.lt_succ_self next))
  | fork level index left right ihl ihr =>
    obtain ⟨hcell, hnode, hl, hr⟩ := h
    refine .fork hbefore hcell hnode hr.cell (ihl hl (by omega)) fun b hbesides => ?_
    have hr' : b.Holds (next + 1) (next + 2 + left.nodesBelow) node.right right := by
      refine hr.congr (hbesides _ (by omega) (.inl (by omega))) fun other hfrom hto => ?_
      exact hbesides other (by omega) (.inr (by omega))
    exact ihr hr' (by omega)

end Arena

end LightPeer.Merkle
