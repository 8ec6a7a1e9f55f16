import LightPeer.Proofs.Merkle.Arena
import LightPeer.Proofs.Merkle.Reading
import LightPeer.Proofs.Merkle.Shape

/-!
# The walk over a proof, and the descent

`walk` goes through a proof with a stack of places in an arena, and `Arena.fill` goes over the
arena a second time.  `descend` is the same walk as a recursion over the tree, and its answer is a
part of the tree.

* `Reads.walk` — where a part is read, the walk goes on until the arena holds it;
* `walk_of_descend_error` — where the descent is refused, so is the walk;
* `build_eq` — so `build` is the descent with the checks around it.
-/

namespace LightPeer.Merkle

namespace Walking

variable {total : UInt32} {height id : Nat} {s s' : Walking} {stack : List Nat} {cell : Cell}
  {flag twoChildren : Bool} {hash : Hash256}

/-- The node at `id` is visited and gets its children, behind all other nodes. -/
structure Expands (s : Walking) (id : Nat) (cell : Cell) (stack : List Nat) (twoChildren : Bool)
    (s' : Walking) : Prop where
  flags_eq : s.flags = true :: s'.flags
  hashes_eq : s'.hashes = s.hashes
  matched_eq : s'.matched = s.matched
  used_eq : s'.used = s.used + 1
  stack_eq : s'.stack =
    if twoChildren then s.arena.cells.size :: (s.arena.cells.size + 1) :: stack
    else s.arena.cells.size :: stack
  size_eq : s'.arena.cells.size = s.arena.cells.size + if twoChildren then 2 else 1
  parent : s'.arena.cells[id]? =
    if twoChildren then
      some ((cell.connect s.arena.cells.size .left).connect (s.arena.cells.size + 1) .right)
    else some (cell.connect s.arena.cells.size .left)
  left : s'.arena.cells[s.arena.cells.size]? = some { node := cell.node.left }
  right : twoChildren = true →
    s'.arena.cells[s.arena.cells.size + 1]? = some { node := cell.node.right }
  besides : ∀ other < s.arena.cells.size, other ≠ id →
    s'.arena.cells[other]? = s.arena.cells[other]?

/-- The node at `id` is visited and gets a hash, which is matched if the flag is set. -/
structure Gives (s : Walking) (id : Nat) (stack : List Nat) (flag : Bool) (hash : Hash256)
    (s' : Walking) : Prop where
  flags_eq : s.flags = flag :: s'.flags
  hashes_eq : s.hashes = hash :: s'.hashes
  matched_eq : s'.matched = if flag then s.matched.push hash else s.matched
  used_eq : s'.used = s.used + 1
  stack_eq : s'.stack = stack
  arena_eq : s'.arena = s.arena.give id hash

/-- Children stand behind all other nodes. -/
theorem expand_expands {flags : List Bool} (hpending : ∀ other ∈ stack, other < s.arena.cells.size)
    (hflags : s.flags = true :: flags) (hcell : s.arena.cells[id]? = some cell)
    (hid : id < s.arena.cells.size) (twoChildren : Bool) :
    s.Expands id cell stack twoChildren
      (expand ⟨s.arena, stack, hpending, flags, s.hashes, s.matched, s.used + 1⟩ id hid
        twoChildren) := by
  have hsize : (s.arena.grow id hid .left).cells.size = s.arena.cells.size + 1 :=
    Arena.size_grow ..
  have hparent : (s.arena.grow id hid .left).cells[id]? =
      some (cell.connect s.arena.cells.size .left) := Arena.getElem?_grow_self .left hid hcell
  have hchild : (s.arena.grow id hid .left).cells[s.arena.cells.size]? =
      some { node := cell.node.left } := Arena.getElem?_grow_size .left hid hcell
  have hbesides : ∀ other < s.arena.cells.size, other ≠ id →
      (s.arena.grow id hid .left).cells[other]? = s.arena.cells[other]? :=
    fun _ hlt hne => Arena.getElem?_grow_of_ne hid hne (Nat.ne_of_lt hlt)
  cases twoChildren with
  | false => exact ⟨hflags, rfl, rfl, rfl, rfl, hsize, hparent, hchild, nofun, hbesides⟩
  | true =>
    have hid' : id < (s.arena.grow id hid .left).cells.size := by omega
    have hright := Arena.getElem?_grow_size .right hid' hparent
    have hparent' := Arena.getElem?_grow_self .right hid' hparent
    have hsize' : ((s.arena.grow id hid .left).grow id hid' .right).cells.size =
        s.arena.cells.size + 2 := by
      rw [Arena.size_grow, hsize]
    rw [hsize] at hright hparent'
    rw [Cell.node_connect] at hright
    refine ⟨hflags, rfl, rfl, rfl, ?_, hsize', hparent', ?_, fun _ => hright,
      fun other hlt hne => ?_⟩
    · show s.arena.cells.size :: (s.arena.grow id hid .left).cells.size :: stack = _
      rw [hsize]
      rfl
    · exact (Arena.getElem?_grow_of_ne hid' (by omega) (by omega)).trans hchild
    · exact (Arena.getElem?_grow_of_ne hid' hne (by omega)).trans (hbesides other hlt hne)

/-- A node with a set flag above the leaves gets its children. -/
theorem round_expanded (total : UInt32) {flags : List Bool} (hstack : s.stack = id :: stack)
    (hcell : s.arena.cells[id]? = some cell) (hflags : s.flags = true :: flags)
    (hinner : cell.node.level < height) :
    ∃ s', s.round total height = .next s' ∧
      s.Expands id cell stack (cell.node.hasRight total height) s' := by
  have hid : id < s.arena.cells.size := Arena.size_of_cell hcell
  have hpending : ∀ other ∈ stack, other < s.arena.cells.size := by
    intro other hother
    refine s.pending other ?_
    rw [hstack]
    exact List.mem_cons_of_mem id hother
  refine ⟨_, ?_, expand_expands hpending hflags hcell hid _⟩
  obtain ⟨arena, _, _, _, hashes, matched, used⟩ := s
  cases hstack
  cases hflags
  obtain ⟨_, rfl⟩ := Array.getElem?_eq_some_iff.mp hcell
  cases hashes <;> simp [round, hinner]

/-- Any other node gets a hash of the proof, and a leaf with a flag is matched. -/
theorem round_given (total : UInt32) {flags : List Bool} {hashes : List Hash256}
    (hstack : s.stack = id :: stack) (hcell : s.arena.cells[id]? = some cell)
    (hflags : s.flags = flag :: flags) (hhashes : s.hashes = hash :: hashes)
    (houter : (flag && cell.node.level < height) = false) :
    ∃ s', s.round total height = .next s' ∧ s.Gives id stack flag hash s' := by
  obtain ⟨arena, _, hpending, _, _, matched, used⟩ := s
  cases hstack
  cases hflags
  cases hhashes
  obtain ⟨_, rfl⟩ := Array.getElem?_eq_some_iff.mp hcell
  have hrest : ∀ other ∈ stack, other < (arena.give id hash).cells.size := by
    intro other hother
    rw [Arena.size_give]
    exact hpending other (List.mem_cons_of_mem id hother)
  refine ⟨⟨arena.give id hash, stack, hrest, flags, hashes,
    if flag then matched.push hash else matched, used + 1⟩, ?_, rfl, rfl, rfl, rfl, rfl, rfl⟩
  rw [round]
  simp only [houter, Bool.false_eq_true, if_false]

/-- If there is no hash for it, it is refused. -/
theorem round_of_no_hashes {flags : List Bool} (hstack : s.stack = id :: stack)
    (hcell : s.arena.cells[id]? = some cell) (hflags : s.flags = flag :: flags)
    (hhashes : s.hashes = []) (houter : (flag && cell.node.level < height) = false) :
    s.round total height = .refused .hashesExhausted := by
  obtain ⟨arena, _, hpending, _, _, matched, used⟩ := s
  cases hstack
  cases hflags
  cases hhashes
  obtain ⟨_, rfl⟩ := Array.getElem?_eq_some_iff.mp hcell
  rw [round]
  simp only [houter, Bool.false_eq_true, if_false]

/-- Without a flag for it a node is refused, whether or not there are hashes left. -/
theorem round_of_no_flags (hstack : s.stack = id :: stack) (hflags : s.flags = []) :
    s.round total height = .refused .flagsExhausted := by
  obtain ⟨arena, _, hpending, _, hashes, matched, used⟩ := s
  cases hstack
  cases hflags
  rfl

/-- A walk is over when no node is left to be visited. -/
theorem round_of_no_nodes (hstack : s.stack = []) : s.round total height = .over := by
  obtain ⟨arena, _, hpending, flags, hashes, matched, used⟩ := s
  cases hstack
  cases flags <;> rfl

/-- All that a round can do: the next node gets its children or a hash. -/
theorem round_cases (h : s.round total height = .next s') :
    ∃ id stack cell, s.stack = id :: stack ∧ s.arena.cells[id]? = some cell ∧
      (cell.node.level < height ∧ s.Expands id cell stack (cell.node.hasRight total height) s' ∨
        ∃ flag hash, s.Gives id stack flag hash s') := by
  cases hstack : s.stack with
  | nil =>
    rw [round_of_no_nodes hstack] at h
    cases h
  | cons id stack =>
    cases hflags : s.flags with
    | nil =>
      rw [round_of_no_flags hstack hflags] at h
      cases h
    | cons flag flags =>
      have hid : id < s.arena.cells.size := s.pending id (hstack ▸ List.mem_cons_self)
      have hcell := Array.getElem?_eq_getElem hid
      refine ⟨id, stack, _, rfl, hcell, ?_⟩
      cases houter : flag && decide (s.arena.cells[id].node.level < height) with
      | true =>
        rw [Bool.and_eq_true, decide_eq_true_eq] at houter
        obtain ⟨rfl, hinner⟩ := houter
        obtain ⟨s'', hround, hexpands⟩ :=
          round_expanded total hstack hcell hflags hinner
        rw [hround] at h
        cases h
        exact .inl ⟨hinner, hexpands⟩
      | false =>
        cases hhashes : s.hashes with
        | nil =>
          rw [round_of_no_hashes hstack hcell hflags hhashes houter] at h
          cases h
        | cons hash hashes =>
          obtain ⟨s'', hround, hgives⟩ :=
            round_given total hstack hcell hflags hhashes houter
          rw [hround] at h
          cases h
          exact .inr ⟨flag, hash, hgives⟩

/-- A walk is one round after another, until a round says that it was the last or that something is
missing. -/
theorem walk_eq (total : UInt32) (height : Nat) (s : Walking) :
    walk total height s =
      match s.round total height with
      | .over => .ok s
      | .refused cause => .error cause
      | .next s' => walk total height s' := by
  rw [walk]
  split <;> next hround => rw [hround]

/-- From `s` on the walk has gone through the part below the node at `id`, and has left the rest of
the proof and all other nodes. -/
structure Explores (s : Walking) (id : Nat) (node : Node) (stack : List Nat) (shown : Shown)
    (rest : Supply) (s' : Walking) : Prop where
  flags_eq : s'.flags = rest.flags
  used_eq : s'.used + s'.flags.length = s.used + s.flags.length
  hashes_eq : s'.hashes = rest.hashes
  matched_eq : s'.matched.toList = s.matched.toList ++ shown.matched
  stack_eq : s'.stack = stack
  size_eq : s'.arena.cells.size = s.arena.cells.size + shown.nodesBelow
  besides : ∀ other < s.arena.cells.size, other ≠ id →
    s'.arena.cells[other]? = s.arena.cells[other]?
  holds : s'.arena.Holds id s.arena.cells.size node shown

end Walking

open Walking

section
variable {total : UInt32} {height depth level index id : Nat} {node : Node} {shown : Shown}
  {supply rest : Supply} {s s' : Walking} {stack : List Nat} {flag : Bool} {flags : List Bool}
  {hash : Hash256} {hashes : List Hash256}

/-- A node that takes a hash is gone through in one round. -/
theorem walk_given (hstack : s.stack = id :: stack) (hcell : s.arena.cells[id]? = some { node })
    (hflags : s.flags = flag :: flags) (hhashes : s.hashes = hash :: hashes)
    (houter : (flag && node.level < height) = false) :
    ∃ s', walk total height s = walk total height s' ∧
      s.Explores id node stack (.given hash flag) ⟨flags, hashes⟩ s' := by
  obtain ⟨s', hround, h⟩ := round_given total hstack hcell hflags hhashes houter
  have hflags' := h.flags_eq
  have hhashes' := h.hashes_eq
  rw [hflags] at hflags'
  rw [hhashes] at hhashes'
  refine ⟨s', by rw [walk_eq, hround], (List.cons.inj hflags').2.symm, ?_,
    (List.cons.inj hhashes').2.symm, ?_, h.stack_eq, ?_, ?_, ?_⟩
  · rw [h.used_eq, h.flags_eq, List.length_cons]
    omega
  · rw [h.matched_eq]
    cases flag <;> simp [Shown.matched]
  · rw [h.arena_eq, Arena.size_give]
    rfl
  · intro other _ hne
    rw [h.arena_eq, Arena.getElem?_give, if_neg hne.symm]
  · show s'.arena.cells[id]? = _
    rw [h.arena_eq, Arena.getElem?_give, if_pos rfl, hcell]
    rfl

/-- A node above the leaves is expanded in one round, if its flag is set. -/
theorem round_inner (hheight : height ≤ 32) (hdepth : node.level + (depth + 1) = height)
    (hexists : node.index.toNat * 2 ^ (depth + 1) < total.toNat) (hstack : s.stack = id :: stack)
    (hcell : s.arena.cells[id]? = some { node }) (hflags : s.flags = true :: flags) :
    ∃ s', s.round total height = .next s' ∧ s'.flags = flags ∧
      s.Expands id { node } stack
        (decide (2 * node.index.toNat + 1 < widthAbove total.toNat depth)) s' := by
  obtain ⟨s', hround, h⟩ :=
    round_expanded total hstack hcell hflags (by omega : node.level < height)
  have hrest := h.flags_eq
  rw [hflags] at hrest
  rw [hasRight_eq hheight hdepth hexists] at h
  exact ⟨s', hround, (List.cons.inj hrest).2.symm, h⟩

/-- While the left part is gone through, the right child waits. -/
theorem Walking.Expands.right_waits {s₁ s₂ : Walking} {cell : Cell} {left : Shown}
    (h₁ : s.Expands id cell stack true s₁)
    (h₂ : s₁.Explores s.arena.cells.size node ((s.arena.cells.size + 1) :: stack) left rest s₂) :
    s₂.arena.cells[s.arena.cells.size + 1]? = some { node := cell.node.right } := by
  have hsize₁ : s₁.arena.cells.size = s.arena.cells.size + 2 := h₁.size_eq
  rw [h₂.besides _ (by omega) (by omega), h₁.right rfl]

/-- Both children of a node are explored, one after the other, and then the part below the node is
in the arena. -/
theorem Walking.Expands.fork {s₁ s₂ s₃ : Walking} {left right : Shown} {between : Supply}
    (h₁ : s.Expands id { node } stack true s₁)
    (h₂ : s₁.Explores s.arena.cells.size node.left ((s.arena.cells.size + 1) :: stack) left
      between s₂)
    (h₃ : s₂.Explores (s.arena.cells.size + 1) node.right stack right rest s₃)
    (hid : id < s.arena.cells.size) (hnode : node.right = ⟨level, UInt32.ofNat index⟩) :
    s.Explores id node stack (.fork level index left right) rest s₃ := by
  have hsize₁ : s₁.arena.cells.size = s.arena.cells.size + 2 := h₁.size_eq
  have hsize₂ := h₂.size_eq
  have hkept (other : Nat) (hlt : other < s.arena.cells.size) :
      s₃.arena.cells[other]? = s₁.arena.cells[other]? :=
    (h₃.besides other (by omega) (by omega)).trans (h₂.besides other (by omega) (by omega))
  refine ⟨h₃.flags_eq, ?_, h₃.hashes_eq, ?_, h₃.stack_eq, ?_, ?_, ?_⟩
  · rw [h₃.used_eq, h₂.used_eq, h₁.used_eq, h₁.flags_eq, List.length_cons]
    omega
  · rw [h₃.matched_eq, h₂.matched_eq, h₁.matched_eq, Shown.matched, List.append_assoc]
  · rw [h₃.size_eq, hsize₂, hsize₁, Shown.nodesBelow]
    omega
  · intro other hlt hne
    rw [hkept other hlt, h₁.besides other hlt hne]
  · have hl := h₂.holds
    have hr := h₃.holds
    rw [hsize₁] at hl
    rw [hsize₂, hsize₁] at hr
    refine ⟨(hkept id hid).trans h₁.parent, hnode, ?_, hr⟩
    -- The walk through the right part leaves the left one as it is.
    refine hl.congr (h₃.besides _ (by omega) (by omega)) fun other hfrom hto => ?_
    exact h₃.besides other (by omega) (by omega)

/-- The only child of a node is explored, and the node is left without a link to a right one. -/
theorem Walking.Expands.lone {s₁ s₂ : Walking} {child : Shown}
    (h₁ : s.Expands id { node } stack false s₁)
    (h₂ : s₁.Explores s.arena.cells.size node.left stack child rest s₂)
    (hid : id < s.arena.cells.size) : s.Explores id node stack (.lone child) rest s₂ := by
  have hsize₁ : s₁.arena.cells.size = s.arena.cells.size + 1 := h₁.size_eq
  have hkept (other : Nat) (hlt : other < s.arena.cells.size) :
      s₂.arena.cells[other]? = s₁.arena.cells[other]? :=
    h₂.besides other (by omega) (by omega)
  refine ⟨h₂.flags_eq, ?_, h₂.hashes_eq, ?_, h₂.stack_eq, ?_, ?_, ?_⟩
  · rw [h₂.used_eq, h₁.used_eq, h₁.flags_eq, List.length_cons]
    omega
  · rw [h₂.matched_eq, h₁.matched_eq, Shown.matched]
  · rw [h₂.size_eq, hsize₁, Shown.nodesBelow]
    omega
  · intro other hlt hne
    rw [hkept other hlt, h₁.besides other hlt hne]
  · have hc := h₂.holds
    rw [hsize₁] at hc
    exact ⟨(hkept id hid).trans h₁.parent, hc⟩

/-- **Where a part is read, the walk goes on until the arena holds it.** -/
theorem Reads.walk (h : Reads total.toNat depth level index supply shown rest)
    (hheight : height ≤ 32) (hindex : node.index.toNat = index) (hlevel : node.level = level)
    (hdepth : level + depth = height) (hexists : index * 2 ^ depth < total.toNat)
    (hstack : s.stack = id :: stack) (hcell : s.arena.cells[id]? = some { node })
    (hflags : s.flags = supply.flags) (hhashes : s.hashes = supply.hashes) :
    ∃ s', walk total height s = walk total height s' ∧ s.Explores id node stack shown rest s' := by
  induction h generalizing s id node stack with
  | leaf =>
    have hleaf : ¬ node.level < height := by omega
    exact walk_given hstack hcell hflags hhashes (by rw [decide_eq_false hleaf, Bool.and_false])
  | pruned => exact walk_given hstack hcell hflags hhashes rfl
  | @fork depth level index flags hashes left right between rest hright hl hr ihl ihr =>
    subst hlevel hindex
    obtain ⟨s₁, hround, hrest, h₁⟩ := round_inner hheight hdepth hexists hstack hcell hflags
    rw [decide_eq_true hright] at h₁
    have hindexLeft := toNat_left_index hexists
    have hindexRight := toNat_right_index hexists
    have hleft := left_exists hexists
    rw [hindexLeft] at hleft
    obtain ⟨s₂, hwalk₂, h₂⟩ := ihl hindexLeft rfl (by omega) hleft h₁.stack_eq
      h₁.left hrest (h₁.hashes_eq.trans hhashes)
    obtain ⟨s₃, hwalk₃, h₃⟩ := ihr hindexRight rfl (by omega)
      (lt_widthAbove_iff.mp hright) h₂.stack_eq (h₁.right_waits h₂) h₂.flags_eq h₂.hashes_eq
    refine ⟨s₃, ?_, h₁.fork h₂ h₃ (Arena.size_of_cell hcell) ?_⟩
    · rw [walk_eq, hround]
      exact hwalk₂.trans hwalk₃
    · rw [← hindexRight, UInt32.ofNat_toNat]
      rfl
  | @lone depth level index flags hashes child rest hright hc ih =>
    subst hlevel hindex
    obtain ⟨s₁, hround, hrest, h₁⟩ := round_inner hheight hdepth hexists hstack hcell hflags
    rw [decide_eq_false hright] at h₁
    have hindexLeft := toNat_left_index hexists
    have hleft := left_exists hexists
    rw [hindexLeft] at hleft
    obtain ⟨s₂, hwalk₂, h₂⟩ := ih hindexLeft rfl (by omega) hleft h₁.stack_eq
      h₁.left hrest (h₁.hashes_eq.trans hhashes)
    refine ⟨s₂, ?_, h₁.lone h₂ (Arena.size_of_cell hcell)⟩
    rw [walk_eq, hround]
    exact hwalk₂

/-- **Where the descent is refused, so is the walk**, for the same reason. -/
theorem walk_of_descend_error {cause : Error}
    (h : descend total.toNat depth level index supply = .error cause) (hheight : height ≤ 32)
    (hindex : node.index.toNat = index) (hlevel : node.level = level)
    (hdepth : level + depth = height) (hexists : index * 2 ^ depth < total.toNat)
    (hstack : s.stack = id :: stack) (hcell : s.arena.cells[id]? = some { node })
    (hflags : s.flags = supply.flags) (hhashes : s.hashes = supply.hashes) :
    walk total height s = .error cause := by
  induction depth generalizing level index supply s id node stack with
  | zero =>
    have hleaf : ¬ node.level < height := by omega
    match supply, h with
    | ⟨[], _⟩, h =>
      cases h
      rw [walk_eq, round_of_no_flags hstack hflags]
    | ⟨flag :: flags, []⟩, h =>
      cases h
      rw [walk_eq, round_of_no_hashes hstack hcell hflags hhashes
        (by rw [decide_eq_false hleaf, Bool.and_false])]
  | succ depth ih =>
    match supply, h with
    | ⟨[], _⟩, h =>
      cases h
      rw [walk_eq, round_of_no_flags hstack hflags]
    | ⟨false :: flags, []⟩, h =>
      cases h
      rw [walk_eq, round_of_no_hashes hstack hcell hflags hhashes rfl]
    | ⟨true :: flags, hashes⟩, h =>
      subst hlevel hindex
      obtain ⟨s₁, hround, hrest, h₁⟩ := round_inner hheight hdepth hexists hstack hcell hflags
      have hindexLeft := toNat_left_index hexists
      have hindexRight := toNat_right_index hexists
      have hleft := left_exists hexists
      rw [hindexLeft] at hleft
      have hdepth' : node.level + 1 + depth = height := by omega
      rw [walk_eq, hround]
      rw [descend] at h
      cases hl : descend total.toNat depth (node.level + 1) (2 * node.index.toNat)
          ⟨flags, hashes⟩ with
      | error cause' =>
        rw [hl] at h
        cases h
        obtain ⟨behind, hstack₁⟩ : ∃ behind, s₁.stack = s.arena.cells.size :: behind := by
          rw [h₁.stack_eq]
          split
          · exact ⟨_, rfl⟩
          · exact ⟨_, rfl⟩
        exact ih hl hindexLeft rfl hdepth' hleft hstack₁ h₁.left hrest
          (h₁.hashes_eq.trans hhashes)
      | ok answer =>
        obtain ⟨left, between⟩ := answer
        simp only [hl, bind, Except.bind] at h
        split at h
        · next hright =>
          rw [decide_eq_true hright] at h₁
          cases hr : descend total.toNat depth (node.level + 1) (2 * node.index.toNat + 1)
              between with
          | ok answer =>
            rw [hr] at h
            cases h
          | error cause' =>
            rw [hr] at h
            cases h
            obtain ⟨s₂, hwalk₂, h₂⟩ := (reads_of_descend_eq hl).walk hheight
              hindexLeft rfl hdepth' hleft h₁.stack_eq h₁.left hrest
              (h₁.hashes_eq.trans hhashes)
            exact hwalk₂.trans (ih hr hindexRight rfl hdepth'
              (lt_widthAbove_iff.mp hright) h₂.stack_eq (h₁.right_waits h₂) h₂.flags_eq
              h₂.hashes_eq)
        · cases h

end

/-- The root stands in a place that exists, as there is a transaction. -/
theorem root_exists {total : UInt32} (htotal : total ≠ 0) :
    Node.root.index.toNat * 2 ^ height total < total.toNat := by
  have hpos : total.toNat ≠ 0 := fun h => htotal (UInt32.toNat_inj.mp h)
  simp only [Node.root, UInt32.toNat_zero]
  omega

/-- Before the first round the root is next, and it is the only node in the arena. -/
theorem walk_root {total : UInt32} (htotal : total ≠ 0) (flags : List Bool)
    (hashes : List Hash256) :
    match descend total.toNat (height total) 0 0 ⟨flags, hashes⟩ with
    | .error cause => walk total (height total) (.start flags hashes) = .error cause
    | .ok (shown, rest) => ∃ s', walk total (height total) (.start flags hashes) = .ok s' ∧
        (start flags hashes).Explores 0 Node.root [] shown rest s' := by
  have hexists : Node.root.index.toNat * 2 ^ height total < total.toNat := root_exists htotal
  have hindex : Node.root.index.toNat = 0 := rfl
  have hcell : (start flags hashes).arena.cells[0]? = some { node := .root } := rfl
  cases h : descend total.toNat (height total) 0 0 ⟨flags, hashes⟩ with
  | error cause =>
    exact walk_of_descend_error h (height_le total) hindex rfl (Nat.zero_add _) hexists rfl hcell
      rfl rfl
  | ok answer =>
    obtain ⟨shown, rest⟩ := answer
    obtain ⟨s', hwalk, hexplores⟩ := (reads_of_descend_eq h).walk (height_le total) hindex rfl
      (Nat.zero_add _) hexists (s := start flags hashes) rfl hcell rfl rfl
    refine ⟨s', ?_, hexplores⟩
    rw [hwalk, walk_eq, round_of_no_nodes hexplores.stack_eq]

/-- What `build` does with the answer of a descent: nothing may be left over, and the
hashes of the nodes are computed. -/
def settle (total : UInt32) (flags : List Bool) (shown : Shown) (rest : Supply) :
    Except Error PartialTree :=
  if rest.hashes ≠ [] then .error (.unusedHashes rest.hashes.length)
  else if ! isPadding (flags.length - rest.flags.length) rest.flags then .error .unusedFlags
  else
    match shown.root with
    | .error e => .error e
    | .ok root => .ok ⟨total, height total, root, shown.matched⟩

/-- If only padding is left over, the root of the part decides. -/
theorem settle_of_isPadding {total : UInt32} {flags padding : List Bool} {shown : Shown}
    (hpad : isPadding (flags.length - padding.length) padding = true) :
    settle total flags shown ⟨padding, []⟩ =
      shown.root.map fun root => ⟨total, height total, root, shown.matched⟩ := by
  rw [settle, if_neg (by simp), if_neg (by simp [hpad])]
  cases shown.root <;> rfl

/-- Following a proof is a descent from the root, and what is done with its answer is the same for
all of them. -/
theorem build_eq {hashes : List Hash256} {total : UInt32} {flags : List Bool}
    (htotal : total ≠ 0) (hcount : hashes.length ≤ total.toNat) :
    build hashes total flags =
      match descend total.toNat (height total) 0 0 ⟨flags, hashes⟩ with
      | .error e => .error e
      | .ok (shown, rest) => settle total flags shown rest := by
  have hroot := walk_root htotal flags hashes
  rw [build, if_neg htotal, if_neg (Nat.not_lt.mpr hcount)]
  cases hd : descend total.toNat (height total) 0 0 ⟨flags, hashes⟩ with
  | error cause =>
    rw [hd] at hroot
    simp only [hroot]
  | ok answer =>
    obtain ⟨shown, rest⟩ := answer
    rw [hd] at hroot
    obtain ⟨s', hwalk, h⟩ := hroot
    have hused : s'.used = flags.length - rest.flags.length := by
      have haccount : s'.used + s'.flags.length = 0 + flags.length := h.used_eq
      rw [h.flags_eq] at haccount
      omega
    have hmatched : s'.matched.toList = shown.matched := h.matched_eq
    have hfill := h.holds.fills Nat.zero_lt_one s'.arena.nonempty
    simp only [hwalk, h.hashes_eq, h.flags_eq, hused, settle]
    split
    · rfl
    · split
      · rfl
      · cases hshown : shown.root with
        | error cause =>
          rw [hshown] at hfill
          rw [hfill]
        | ok root =>
          rw [hshown] at hfill
          obtain ⟨b, hb, hfilled, -⟩ := hfill
          rw [hfilled, hmatched]

/-- A proof is accepted exactly if it is a reading of a tree of its size, nothing but
padding is left of it, and the part of the tree that it shows has a hash. -/
theorem build_eq_ok_iff {hashes : List Hash256} {total : UInt32} {flags : List Bool}
    {tree : PartialTree} :
    build hashes total flags = .ok tree ↔
      total ≠ 0 ∧ hashes.length ≤ total.toNat ∧ ∃ shown padding root,
        Reads total.toNat (height total) 0 0 ⟨flags, hashes⟩ shown ⟨padding, []⟩ ∧
        isPadding (flags.length - padding.length) padding = true ∧
        shown.root = .ok root ∧ tree = ⟨total, height total, root, shown.matched⟩ := by
  by_cases htotal : total = 0
  · simp [build, htotal]
  by_cases hcount : total.toNat < hashes.length
  · simp [build, htotal, hcount, Nat.not_le.mpr hcount]
  have hle := Nat.not_lt.mp hcount
  rw [build_eq htotal hle]
  constructor
  · intro h
    cases hd : descend total.toNat (height total) 0 0 ⟨flags, hashes⟩ with
    | error e => rw [hd] at h; cases h
    | ok answer =>
      obtain ⟨shown, padding, left⟩ := answer
      simp only [hd, settle] at h
      cases left with
      | cons _ _ => simp at h
      | nil =>
        cases hpad : isPadding (flags.length - padding.length) padding with
        | false => simp [hpad] at h
        | true =>
          cases hroot : shown.root with
          | error e => simp [hpad, hroot] at h
          | ok root =>
            simp only [hpad, hroot, ne_eq, not_true_eq_false, if_false, Bool.not_true,
              Bool.false_eq_true, Except.ok.injEq] at h
            exact ⟨htotal, hle, shown, padding, root, reads_of_descend_eq hd, hpad, hroot, h.symm⟩
  · rintro ⟨-, -, shown, padding, root, hreads, hpad, hroot, rfl⟩
    simp only [hreads.descend_eq, settle_of_isPadding hpad, hroot, Except.map]

end LightPeer.Merkle
