import LightPeer.Proofs.Merkle.Descent

/-!
# The two passes, round by round and call by call

The flags of a proof and the number of transactions come from outside, and the widest level of a
tree has nearly as many nodes as a word of 32 bits can count.  This file looks at what the two
passes hold at every moment.

A walk goes round by round.  At every moment all nodes of the arena are nodes of the tree, links
lead to the children that they are for, and a node that is not to be visited any more has a hash or
a left child.  When the walk is over, every node has one or the other, and the second pass, which
goes call by call, keeps it that way.  So no call is at a loss, and as each one stands a level below
the one that made it, calls are nested no deeper than the tree is high.

* `Walking.Tidy.round`, `Reaches.tidy` — what a round keeps, and all rounds;
* `Reaches.accounts` — each round has taken one flag;
* `Call.Ready.makes` — what a call hands on to those that it makes;
* `rebuilding_safe` — these facts about a proof and its tree.
-/

namespace LightPeer.Merkle

/-- The walk over a proof comes to this after `n` rounds.  There is a walk only if there are
transactions, and no fewer of them than hashes. -/
inductive Reaches (hashes : List Hash256) (total : UInt32) (flags : List Bool) :
    Nat → Walking → Prop
  | start (htotal : total ≠ 0) (hcount : hashes.length ≤ total.toNat) :
      Reaches hashes total flags 0 (.start flags hashes)
  | round {n : Nat} {s s' : Walking} (h : Reaches hashes total flags n s)
      (hround : s.round total (height total) = .next s') : Reaches hashes total flags (n + 1) s'

/-- A node of the tree: it stands no deeper than the leaves, and in a place that exists. -/
def Node.Within (total : UInt32) (node : Node) : Prop :=
  node.level ≤ height total ∧
    node.index.toNat < total.toNat ⌈/⌉ 2 ^ (height total - node.level)

namespace Arena

/-- All nodes are nodes of the tree, and a link leads to the child that it is for. -/
structure Sound (total : UInt32) (a : Arena) : Prop where
  within {id : Nat} {cell : Cell} (hcell : a.cells[id]? = some cell) : cell.node.Within total
  linked {id child : Nat} {cell : Cell} {side : Side} (hcell : a.cells[id]? = some cell)
    (hlink : cell.link side = some child) :
    ∃ cell', a.cells[child]? = some cell' ∧ cell'.node = cell.node.child side

/-- Every node has a hash or a left child. -/
def Known (a : Arena) : Prop :=
  ∀ (id : Nat) (cell : Cell), a.cells[id]? = some cell → cell.hash.isSome ∨ cell.left.isSome

end Arena

/-- What a walk keeps: its arena is sound and begins with the root, and a node that is not to be
visited any more has a hash or a left child. -/
structure Walking.Tidy (total : UInt32) (s : Walking) : Prop where
  sound : s.arena.Sound total
  root : ∃ cell, s.arena.cells[0]? = some cell ∧ cell.node = .root
  known {id : Nat} {cell : Cell} (hcell : s.arena.cells[id]? = some cell) :
    id ∈ s.stack ∨ cell.hash.isSome ∨ cell.left.isSome

section
variable {hashes : List Hash256} {total : UInt32} {flags : List Bool} {n id : Nat} {node : Node}
  {s s' : Walking} {a b : Arena} {cell : Cell} {stack : List Nat} {twoChildren : Bool}

/-- A node that stands in a place that exists has a leaf below it. -/
theorem Node.Within.exists_leaf (h : node.Within total) :
    node.index.toNat * 2 ^ (height total - node.level) < total.toNat :=
  lt_widthAbove_iff.mp h.2

/-- A node above the leaves has its children one level below, in places that exist. -/
theorem Node.Within.children (h : node.Within total) (hinner : node.level < height total) :
    ∀ child ∈ node.children total (height total), child.Within total := by
  obtain ⟨depth, hdepth⟩ : ∃ depth, node.level + (depth + 1) = height total :=
    ⟨height total - node.level - 1, by omega⟩
  have hexists := h.exists_leaf
  rw [show height total - node.level = depth + 1 by omega] at hexists
  have hbelow {child : Node} (hlevel : child.level = node.level + 1)
      (hindex : child.index.toNat * 2 ^ depth < total.toNat) : child.Within total := by
    refine ⟨by omega, ?_⟩
    rw [show height total - child.level = depth by omega]
    exact lt_widthAbove_iff.mpr hindex
  have hleft : node.left.Within total := hbelow rfl (left_exists hexists)
  intro child hchild
  rw [Node.children, hasRight_eq (height_le total) hdepth hexists] at hchild
  split at hchild
  · next hright =>
    have hplace := of_decide_eq_true hright
    rw [← toNat_right_index hexists] at hplace
    have hright : node.right.Within total := hbelow rfl (lt_widthAbove_iff.mp hplace)
    rcases List.mem_pair.mp hchild with rfl | rfl
    · exact hleft
    · exact hright
  · rw [List.mem_singleton.mp hchild]
    exact hleft

/-- The positions of both children are computed without a carry. -/
theorem Node.Within.fits (h : node.Within total) (hinner : node.level < height total) :
    node.index.toNat * 2 + 1 < 2 ^ 32 ∧ node.left.index.toNat = node.index.toNat * 2 ∧
      node.right.index.toNat = node.left.index.toNat + 1 := by
  have hexists := h.exists_leaf
  rw [show height total - node.level = height total - node.level - 1 + 1 by omega] at hexists
  have hleft := toNat_left_index hexists
  have hright := toNat_right_index hexists
  have hword := node.right.index.toNat_lt
  exact ⟨by omega, by omega, by omega⟩

/-- The root is a node of every tree. -/
theorem within_root (htotal : total ≠ 0) : Node.root.Within total :=
  ⟨Nat.zero_le _, lt_widthAbove_iff.mpr (root_exists htotal)⟩

namespace Arena

/-- What is found at a place when nothing but hashes has changed. -/
theorem Kept.back (h : a.Kept b) (hsize : b.cells.size = a.cells.size)
    (hcell : b.cells[id]? = some cell) :
    ∃ cell', a.cells[id]? = some cell' ∧ cell = { cell' with hash := cell.hash } ∧
      (cell'.hash.isSome → cell.hash.isSome) := by
  have hid : id < a.cells.size := hsize ▸ size_of_cell hcell
  obtain ⟨hash, hfound, hsome⟩ := h id _ (Array.getElem?_eq_getElem hid)
  rw [hcell] at hfound
  cases hfound
  exact ⟨_, Array.getElem?_eq_getElem hid, rfl, hsome⟩

/-- Hashes that are noted leave the nodes of the tree and their links as they are. -/
theorem Sound.keep (h : a.Sound total) (hkept : a.Kept b) (hsize : b.cells.size = a.cells.size) :
    b.Sound total := by
  constructor
  · intro id cell hcell
    obtain ⟨cell', hcell', hsame, -⟩ := hkept.back hsize hcell
    have hwithin := h.within hcell'
    rw [hsame]
    exact hwithin
  · intro id child cell side hcell hlink
    obtain ⟨cell', hcell', hsame, -⟩ := hkept.back hsize hcell
    rw [hsame, Cell.link_hash] at hlink
    obtain ⟨below, hbelow, hnode⟩ := h.linked hcell' hlink
    obtain ⟨hash, hbelow', -⟩ := hkept child below hbelow
    refine ⟨_, hbelow', ?_⟩
    rw [hsame]
    exact hnode

/-- A node that has a hash or a left child still has it when more hashes are noted. -/
theorem Known.keep (h : a.Known) (hkept : a.Kept b) (hsize : b.cells.size = a.cells.size) :
    b.Known := by
  intro id cell hcell
  obtain ⟨cell', hcell', hsame, hsome⟩ := hkept.back hsize hcell
  rcases h id cell' hcell' with hhash | hleft
  · exact .inl (hsome hhash)
  · rw [hsame]
    exact .inr hleft

end Arena

namespace Walking

/-- What is found at a place when a node has got its children. -/
theorem Expands.cell_cases (h : s.Expands id cell stack twoChildren s') {other : Nat} {cell' : Cell}
    (hcell' : s'.arena.cells[other]? = some cell') :
    (other < s.arena.cells.size ∧ other ≠ id ∧ s.arena.cells[other]? = some cell') ∨
      (other = id ∧ s'.arena.cells[id]? = some cell') ∨
      (other = s.arena.cells.size ∧ cell' = { node := cell.node.left }) ∨
      (twoChildren = true ∧ other = s.arena.cells.size + 1 ∧
        cell' = { node := cell.node.right }) := by
  have hlt := Arena.size_of_cell hcell'
  rw [h.size_eq] at hlt
  by_cases hself : other = id
  · exact .inr (.inl ⟨hself, hself ▸ hcell'⟩)
  by_cases hold : other < s.arena.cells.size
  · exact .inl ⟨hold, hself, (h.besides other hold hself).symm.trans hcell'⟩
  by_cases hleft : other = s.arena.cells.size
  · subst hleft
    rw [h.left] at hcell'
    exact .inr (.inr (.inl ⟨rfl, (Option.some.inj hcell').symm⟩))
  · cases twoChildren with
    | false =>
      rw [if_neg Bool.false_ne_true] at hlt
      omega
    | true =>
      rw [if_pos rfl] at hlt
      obtain rfl : other = s.arena.cells.size + 1 := by omega
      rw [h.right rfl] at hcell'
      exact .inr (.inr (.inr ⟨rfl, rfl, (Option.some.inj hcell').symm⟩))

/-- The node that gets its children links to them, and to nothing else that is new. -/
theorem Expands.parent_cases (h : s.Expands id cell stack twoChildren s') :
    ∃ parent, s'.arena.cells[id]? = some parent ∧ parent.node = cell.node ∧ parent.left.isSome ∧
      ∀ side child, parent.link side = some child →
        cell.link side = some child ∨
          s'.arena.cells[child]? = some { node := cell.node.child side } := by
  have hparent := h.parent
  cases twoChildren with
  | false =>
    refine ⟨_, hparent, Cell.node_connect .., rfl, fun side child hlink => ?_⟩
    cases side with
    | left =>
      cases hlink
      exact .inr h.left
    | right => exact .inl hlink
  | true =>
    refine ⟨_, hparent, rfl, rfl, fun side child hlink => ?_⟩
    cases side with
    | left =>
      cases hlink
      exact .inr h.left
    | right =>
      cases hlink
      exact .inr (h.right rfl)

/-- What was there is still there, as the same node. -/
theorem Expands.same_node (h : s.Expands id cell stack twoChildren s')
    (hcell : s.arena.cells[id]? = some cell) {other : Nat} {cell' : Cell}
    (hcell' : s.arena.cells[other]? = some cell') :
    ∃ found, s'.arena.cells[other]? = some found ∧ found.node = cell'.node := by
  by_cases hself : other = id
  · subst hself
    rw [hcell] at hcell'
    cases hcell'
    obtain ⟨parent, hparent, hnode, -⟩ := h.parent_cases
    exact ⟨parent, hparent, hnode⟩
  · exact ⟨cell', (h.besides other (Arena.size_of_cell hcell') hself).trans hcell', rfl⟩

/-- A node that gets its children leaves every node a node of the tree, and links its own to the two
places behind all others. -/
theorem Expands.sound (h : s.Expands id cell stack (cell.node.hasRight total (height total)) s')
    (hcell : s.arena.cells[id]? = some cell) (hinner : cell.node.level < height total)
    (hsound : s.arena.Sound total) : s'.arena.Sound total := by
  have hchildren := (hsound.within hcell).children hinner
  constructor
  · intro other cell' hcell'
    rcases h.cell_cases hcell' with ⟨-, -, hold⟩ | ⟨rfl, hparent⟩ | ⟨-, rfl⟩ | ⟨hright, -, rfl⟩
    · exact hsound.within hold
    · obtain ⟨parent, hparent', hnode, -⟩ := h.parent_cases
      rw [hparent] at hparent'
      cases hparent'
      rw [hnode]
      exact hsound.within hcell
    · exact hchildren _ (by rw [Node.children]; split <;> exact List.mem_cons_self)
    · refine hchildren _ ?_
      rw [Node.children, if_pos hright]
      exact List.mem_cons_of_mem _ List.mem_cons_self
  · intro other child cell' side hcell' hlink
    have hlinked {parent : Cell} (hparent : s.arena.cells[other]? = some parent)
        (hlink : parent.link side = some child) :
        ∃ found, s'.arena.cells[child]? = some found ∧ found.node = parent.node.child side := by
      obtain ⟨below, hbelow, hnode⟩ := hsound.linked hparent hlink
      obtain ⟨found, hfound, hsame⟩ := h.same_node hcell hbelow
      exact ⟨found, hfound, hsame.trans hnode⟩
    rcases h.cell_cases hcell' with ⟨-, -, hold⟩ | ⟨rfl, hparent⟩ | ⟨-, rfl⟩ | ⟨-, -, rfl⟩
    · exact hlinked hold hlink
    · obtain ⟨parent, hparent', hnode, -, hlinks⟩ := h.parent_cases
      rw [hparent] at hparent'
      cases hparent'
      rw [hnode]
      rcases hlinks side child hlink with hold | hnew
      · exact hlinked hcell hold
      · exact ⟨_, hnew, rfl⟩
    · cases side <;> cases hlink
    · cases side <;> cases hlink

/-- **A round keeps the arena tidy.**  It adds children behind all other nodes or notes a hash, and
nothing else. -/
theorem Tidy.round (h : s.Tidy total) (hround : s.round total (height total) = .next s') :
    s'.Tidy total := by
  obtain ⟨id, stack, cell, hstack, hcell, ⟨hinner, hexpands⟩ | ⟨flag, hash, hgives⟩⟩ :=
    round_cases hround
  · obtain ⟨first, hfirst, hroot⟩ := h.root
    obtain ⟨first', hfirst', hsame⟩ := hexpands.same_node hcell hfirst
    refine ⟨hexpands.sound hcell hinner h.sound, ⟨first', hfirst', hsame.trans hroot⟩,
      fun {other cell'} hcell' => ?_⟩
    rw [hexpands.stack_eq]
    rcases hexpands.cell_cases hcell' with ⟨-, hne, hold⟩ | ⟨rfl, hparent⟩ | ⟨rfl, -⟩ |
      ⟨hright, rfl, -⟩
    · rcases h.known hold with hwaits | hknown
      · rw [hstack] at hwaits
        have hbehind := (List.mem_cons.mp hwaits).resolve_left hne
        split <;> simp [hbehind]
      · exact .inr hknown
    · obtain ⟨parent, hparent', -, hleft, -⟩ := hexpands.parent_cases
      rw [hparent] at hparent'
      cases hparent'
      exact .inr (.inr hleft)
    · split <;> simp
    · simp [hright]
  · have hkept : s.arena.Kept s'.arena := by
      rw [hgives.arena_eq]
      exact s.arena.kept_give id hash
    have hsize : s'.arena.cells.size = s.arena.cells.size := by
      rw [hgives.arena_eq, Arena.size_give]
    obtain ⟨first, hfirst, hroot⟩ := h.root
    obtain ⟨_, hfirst', -⟩ := hkept 0 first hfirst
    refine ⟨h.sound.keep hkept hsize, ⟨_, hfirst', hroot⟩, fun {other cell'} hcell' => ?_⟩
    rw [hgives.stack_eq]
    obtain ⟨before, hbefore, hsame, hsome⟩ := hkept.back hsize hcell'
    rcases h.known hbefore with hwaits | hhash | hleft
    · rw [hstack] at hwaits
      rcases List.mem_cons.mp hwaits with rfl | hbehind
      · rw [hgives.arena_eq, Arena.getElem?_give, if_pos rfl, hbefore] at hcell'
        cases hcell'
        exact .inr (.inl rfl)
      · exact .inl hbehind
    · exact .inr (.inl (hsome hhash))
    · rw [hsame]
      exact .inr (.inr hleft)

end Walking

/-- There is no round of a walk over a proof without transactions. -/
theorem Reaches.total_ne_zero (h : Reaches hashes total flags n s) : total ≠ 0 := by
  induction h with
  | start htotal _ => exact htotal
  | round _ _ ih => exact ih

/-- **At every moment the arena is tidy**, by one round after another from the root alone. -/
theorem Reaches.tidy (h : Reaches hashes total flags n s) : s.Tidy total := by
  induction h with
  | start htotal _ =>
    have hroot {id : Nat} {cell : Cell} (hcell : Arena.root.cells[id]? = some cell) :
        id = 0 ∧ cell = { node := .root } := by
      obtain ⟨hid, rfl⟩ := Array.getElem?_eq_some_iff.mp hcell
      obtain rfl : id = 0 := Nat.lt_one_iff.mp hid
      exact ⟨rfl, rfl⟩
    refine ⟨⟨fun hcell => ?_, fun {_ _ _ side} hcell hlink => ?_⟩, ⟨_, rfl, rfl⟩, fun hcell => ?_⟩
    · rw [(hroot hcell).2]
      exact within_root htotal
    · rw [(hroot hcell).2] at hlink
      cases side <;> cases hlink
    · rw [(hroot hcell).1]
      exact .inl List.mem_cons_self
  | round _ hround ih => exact ih.round hround

/-- **As many flags are taken as there were rounds**, and so the rounds are bounded by the flags. -/
theorem Reaches.accounts (h : Reaches hashes total flags n s) :
    n ≤ flags.length ∧ s.flags = flags.drop n ∧ s.used = n := by
  induction h with
  | start => exact ⟨Nat.zero_le _, rfl, rfl⟩
  | @round n s s' _ hround ih =>
    obtain ⟨-, hflags, hused⟩ := ih
    obtain ⟨flag, htaken, hused'⟩ : ∃ flag, s.flags = flag :: s'.flags ∧ s'.used = s.used + 1 := by
      obtain ⟨_, _, _, -, -, ⟨-, h⟩ | ⟨_, _, h⟩⟩ := Walking.round_cases hround
      · exact ⟨_, h.flags_eq, h.used_eq⟩
      · exact ⟨_, h.flags_eq, h.used_eq⟩
    rw [hflags] at htaken
    have hmore : n < flags.length := by
      by_contra hnone
      rw [List.drop_eq_nil_of_le (Nat.le_of_not_lt hnone)] at htaken
      cases htaken
    refine ⟨hmore, ?_, by rw [hused', hused]⟩
    rw [← List.tail_drop, htaken, List.tail_cons]

/-- The walk of the proof goes through all that is reached. -/
theorem Reaches.walk_eq (h : Reaches hashes total flags n s) :
    walk total (height total) (.start flags hashes) = walk total (height total) s := by
  induction h with
  | start => rfl
  | round _ hround ih => rw [ih, Walking.walk_eq, hround]

/-- A walk comes to an end: no flag is left at last, if nothing else ends it. -/
theorem Reaches.exists_last (h : Reaches hashes total flags n s) :
    ∃ m last, Reaches hashes total flags m last ∧
      ∀ s', last.round total (height total) ≠ .next s' := by
  induction hleft : s.flags.length generalizing n s with
  | zero =>
    refine ⟨n, s, h, fun s' hround => ?_⟩
    obtain ⟨flag, htaken⟩ := Walking.flags_of_round hround
    rw [htaken] at hleft
    cases hleft
  | succ left ih =>
    by_cases hmore : ∃ s', s.round total (height total) = .next s'
    · obtain ⟨s', hround⟩ := hmore
      obtain ⟨flag, htaken⟩ := Walking.flags_of_round hround
      rw [htaken] at hleft
      exact ih (h.round hround) (Nat.succ.inj hleft)
    · exact ⟨n, s, h, fun s' hround => hmore ⟨s', hround⟩⟩

/-- A walk is over only when no node is left to be visited. -/
theorem Walking.stack_of_over (h : s.round total (height total) = .over) : s.stack = [] := by
  obtain ⟨arena, _ | ⟨id, stack⟩, hpending, _ | ⟨flag, flags⟩, hashes, matched, used⟩ := s
  · rfl
  · rfl
  · cases h
  · rw [round.eq_def] at h
    dsimp only at h
    split at h
    · cases h
    · cases hashes <;> cases h

/-- When the walk is over, every node has a hash or a left child. -/
theorem Reaches.known (h : Reaches hashes total flags n s)
    (hover : s.round total (height total) = .over) : s.arena.Known := by
  have hstack : s.stack = [] := Walking.stack_of_over hover
  intro id cell hcell
  have hknown := h.tidy.known hcell
  rw [hstack] at hknown
  exact hknown.resolve_left List.not_mem_nil

end

/-- **No call is at a loss** when every node has a hash or a left child. -/
theorem Arena.Known.fill_ne {a : Arena} {id : Nat} (hid : id < a.cells.size) (h : a.Known) :
    a.fill id hid ≠ .error .hashesExhausted := by
  have hkeeps {a b : Arena} (ha : a.Known) {id : Nat} (hid : id < a.cells.size) {hash : Hash256}
      {hb : b.cells.size = a.cells.size} (hfill : a.fill id hid = .ok ⟨hash, b, hb⟩) : b.Known :=
    ha.keep (Arena.fill_keeps hid hfill) hb
  fun_induction Arena.fill a id hid with
  | case2 a id hid hhash hnone =>
    -- The node has no hash, so it has a left child.
    have hcell := Array.getElem?_eq_getElem hid
    have hleft := (h id _ hcell).resolve_left (by rw [hhash]; exact Bool.false_ne_true)
    obtain ⟨left, hleft⟩ := Option.isSome_iff_exists.mp hleft
    rw [Arena.child?_eq_some .left hid hcell hleft] at hnone
    cases hnone
  | case3 _ _ _ _ _ _ _ cause hfailed ih =>
    rintro ⟨⟩
    exact ih h hfailed
  | case5 _ _ _ _ _ _ _ _ b _ hfilled _ _ _ _ hfailed _ ih =>
    rintro ⟨⟩
    exact ih (hkeeps h _ hfilled) hfailed
  | _ => rintro ⟨⟩

/-- A call of the second pass: the arena, and the place of a node in it. -/
structure Call where
  arena : Arena
  id : Nat
  inside : id < arena.cells.size

namespace Call

/-- The node of a call. -/
def cell (call : Call) : Cell :=
  have := call.inside
  call.arena.cells[call.id]

/-- The answer of a call. -/
def answer (call : Call) : Except Error (Filled call.arena.cells.size) :=
  call.arena.fill call.id call.inside

/-- The calls that are made for the children of a node without a hash, the second one in the arena
that the first has left. -/
inductive Makes : Call → Call → Prop
  | left {call call' : Call} (hhash : call.cell.hash = none)
      (hlink : call.cell.left = some call'.id) (harena : call'.arena = call.arena) :
      Makes call call'
  | right {call first call' : Call} {filled : Filled first.arena.cells.size} {cell : Cell}
      (hhash : call.cell.hash = none) (hfirst : call.cell.left = some first.id)
      (hsame : first.arena = call.arena) (hanswer : first.answer = .ok filled)
      (harena : call'.arena = filled.arena) (hcell : call'.arena.cells[call.id]? = some cell)
      (hlink : cell.right = some call'.id) : Makes call call'

/-- The calls that are nested `n` deep in a call. -/
inductive Nests (outer : Call) : Nat → Call → Prop
  | self : Nests outer 0 outer
  | inner {n : Nat} {call call' : Call} (h : Nests outer n call) (hmakes : call.Makes call') :
      Nests outer (n + 1) call'

/-- A call for a node of this level, in an arena in which no call is at a loss. -/
structure Ready (total : UInt32) (level : Nat) (call : Call) : Prop where
  sound : call.arena.Sound total
  known : call.arena.Known
  level_eq : call.cell.node.level = level

variable {total : UInt32} {level n : Nat} {call call' : Call}

/-- A call is made for a node that is there. -/
theorem getElem?_id (call : Call) : call.arena.cells[call.id]? = some call.cell :=
  Array.getElem?_eq_getElem call.inside

/-- A child stands one level below, so a call for it is one level nearer to the leaves. -/
theorem level_child {cell : Cell} (side : Side) (hsound : call'.arena.Sound total)
    (hcell : call'.arena.cells[call.id]? = some cell) (hlink : cell.link side = some call'.id)
    (hlevel : cell.node.level = level) : call'.cell.node.level = level + 1 := by
  obtain ⟨found, hfound, hnode⟩ := hsound.linked hcell hlink
  rw [call'.getElem?_id] at hfound
  cases hfound
  rw [hnode]
  cases side <;> exact congrArg (· + 1) hlevel

/-- **A call hands on what it is ready with**, one level further down. -/
theorem Ready.makes (h : call.Ready total level) (hmakes : call.Makes call') :
    call'.Ready total (level + 1) := by
  cases hmakes with
  | left _ hlink harena =>
    have hsound : call'.arena.Sound total := harena ▸ h.sound
    have hcell : call'.arena.cells[call.id]? = some call.cell := harena ▸ call.getElem?_id
    exact ⟨hsound, harena ▸ h.known, level_child .left hsound hcell hlink h.level_eq⟩
  | @right first _ filled cell _ _ hsame hanswer harena hcell hlink =>
    have hkept : call.arena.Kept filled.arena := hsame ▸ Arena.fill_keeps first.inside hanswer
    have hsize : filled.arena.cells.size = call.arena.cells.size := hsame ▸ filled.size_eq
    rw [← harena] at hkept hsize
    have hsound := h.sound.keep hkept hsize
    obtain ⟨hash, hcell', -⟩ := hkept call.id _ call.getElem?_id
    have hlevel : cell.node.level = level := by
      rw [hcell] at hcell'
      cases hcell'
      exact h.level_eq
    exact ⟨hsound, h.known.keep hkept hsize,
      level_child .right hsound hcell hlink hlevel⟩

/-- Every call for a node is ready as far below it as the call is nested in its own. -/
theorem Ready.nests (h : call.Ready total level) (hnests : call.Nests n call') :
    call'.Ready total (level + n) := by
  induction hnests with
  | self => exact h
  | inner _ hmakes ih => exact ih.makes hmakes

end Call

/-- The words that the shape of a tree is computed in hold all that they have to. -/
structure WordsSuffice (total : UInt32) : Prop where
  /-- The height is the logarithm of the number of transactions, rounded up, and small. -/
  height_eq : height total = Nat.clog 2 total.toNat
  height_le : height total ≤ 32
  /-- No power of two that is looked at leaves 64 bits, nor does the number that is shifted back. -/
  shift : ∀ level ≤ height total,
    (1 <<< UInt64.ofNat level : UInt64).toNat = 2 ^ level ∧ total.toNat + 2 ^ level < 2 ^ 64
  /-- The number of nodes at a level is the exact quotient, rounded up. -/
  width : ∀ level ≤ height total,
    (width total (height total) level).toNat =
      (total.toNat + 2 ^ (height total - level) - 1) / 2 ^ (height total - level)

/-- The widths, the places and the depths of any tree fit into the words that they are computed
in. -/
theorem wordsSuffice (total : UInt32) : WordsSuffice total := by
  have hheight := height_le total
  refine ⟨?_, hheight, fun level hlevel => ?_, fun level _ => toNat_width (by omega)⟩
  · rw [height_eq_ceilLog2, ceilLog2_eq_clog]
  · have hword := total.toNat_lt
    have hpow : 2 ^ level ≤ 2 ^ 32 := Nat.pow_le_pow_right (by decide) (hlevel.trans hheight)
    have hshift : level % 2 ^ 64 % 64 = level := by omega
    refine ⟨?_, by omega⟩
    rw [UInt64.toNat_shiftLeft, UInt64.toNat_ofNat', hshift, UInt64.toNat_one, Nat.shiftLeft_eq]
    omega

/-- **No proof leads the two passes astray.**  Words hold what is computed in them.  At every moment
of the walk all places that are still to be visited are places of nodes of the tree, whose children
have positions that fit into 32 bits; as many flags are used up as there were rounds, and after as
many rounds as there are flags at the latest, the next one is the last.  What the walk leaves of the
flags begins behind those that it has used.  In the second pass calls are nested no deeper than
there are levels; each of them is for a node of its own level, which has a hash or a left child, and
none is short of a hash. -/
theorem rebuilding_safe (hashes : List Hash256) (total : UInt32) (flags : List Bool) :
    WordsSuffice total ∧
      (∀ n s, Reaches hashes total flags n s →
        walk total (height total) (.start flags hashes) = walk total (height total) s ∧
        n ≤ flags.length ∧ s.flags = flags.drop n ∧ s.used = n ∧ s.Tidy total ∧
        ∀ id ∈ s.stack, ∃ cell, s.arena.cells[id]? = some cell ∧ cell.node.Within total ∧
          (cell.node.level < height total → cell.node.index.toNat * 2 + 1 < 2 ^ 32 ∧
            cell.node.left.index.toNat = cell.node.index.toNat * 2 ∧
            cell.node.right.index.toNat = cell.node.left.index.toNat + 1)) ∧
      (total ≠ 0 → hashes.length ≤ total.toNat →
        ∃ n ≤ flags.length, ∃ last, Reaches hashes total flags n last ∧
          ∀ s', last.round total (height total) ≠ .next s') ∧
      ∀ n last, Reaches hashes total flags n last → last.round total (height total) = .over →
        walk total (height total) (.start flags hashes) = .ok last ∧
        last.used ≤ flags.length ∧ last.flags = flags.drop last.used ∧
        ∀ nested call, Call.Nests ⟨last.arena, 0, last.arena.nonempty⟩ nested call →
          nested + 1 ≤ height total + 1 ∧ call.cell.node.level = nested ∧
          (call.cell.hash = none → call.cell.left ≠ none) ∧
          call.answer ≠ .error .hashesExhausted := by
  refine ⟨wordsSuffice total, ?_, ?_, ?_⟩
  · intro n s hreaches
    obtain ⟨hflags, hrest, hused⟩ := hreaches.accounts
    refine ⟨hreaches.walk_eq, hflags, hrest, hused, hreaches.tidy, fun id hid => ?_⟩
    have hcell := Array.getElem?_eq_getElem (s.pending id hid)
    have hwithin := hreaches.tidy.sound.within hcell
    exact ⟨_, hcell, hwithin, hwithin.fits⟩
  · intro htotal hcount
    obtain ⟨n, last, hreaches, hlast⟩ := (Reaches.start htotal hcount).exists_last
    exact ⟨n, hreaches.accounts.1, last, hreaches, hlast⟩
  · intro n last hreaches hover
    obtain ⟨hflags, hrest, hused⟩ := hreaches.accounts
    have hwalk : walk total (height total) (.start flags hashes) = .ok last := by
      rw [hreaches.walk_eq, Walking.walk_eq, hover]
    have hready : (⟨last.arena, 0, last.arena.nonempty⟩ : Call).Ready total 0 := by
      obtain ⟨root, hroot, hnode⟩ := hreaches.tidy.root
      rw [Array.getElem?_eq_getElem last.arena.nonempty] at hroot
      cases hroot
      exact ⟨hreaches.tidy.sound, hreaches.known hover, congrArg Node.level hnode⟩
    refine ⟨hwalk, hused ▸ hflags, hused ▸ hrest, fun nested call hnests => ?_⟩
    have hcall := hready.nests hnests
    rw [Nat.zero_add] at hcall
    have hwithin := hcall.sound.within call.getElem?_id
    refine ⟨Nat.succ_le_succ (hcall.level_eq ▸ hwithin.1), hcall.level_eq, ?_, ?_⟩
    · intro hhash
      have hleft := hcall.known _ _ call.getElem?_id
      rw [hhash] at hleft
      exact Option.isSome_iff_ne_none.mp (hleft.resolve_left Bool.false_ne_true)
    · exact hcall.known.fill_ne call.inside

/-- A walk over five transactions whose last one is alone on its side: three rounds lead to a stack
of one node, and the last round leaves five nodes, two of them without a right child. -/
theorem rebuilding_safe_five :
    (∃ s, Reaches [.zero, .zero] 5 [true, false, true, true, true] 3 s ∧ s.stack = [3] ∧
        s.flags = [true, true] ∧ s.used = 3 ∧ s.Tidy 5 ∧
        ∃ cell, s.arena.cells[3]? = some cell ∧ cell.node = ⟨2, 2⟩ ∧ cell.node.Within 5) ∧
      ∃ last, Reaches [.zero, .zero] 5 [true, false, true, true, true] 5 last ∧
        last.round 5 (height 5) = .over ∧
        last.arena.cells.map (·.node) = #[⟨0, 0⟩, ⟨1, 0⟩, ⟨1, 1⟩, ⟨2, 2⟩, ⟨3, 4⟩] ∧
        last.arena.cells.map (·.left) = #[some 1, none, some 3, some 4, none] ∧
        ∀ nested call, Call.Nests ⟨last.arena, 0, last.arena.nonempty⟩ nested call →
          nested + 1 ≤ 4 ∧ call.answer ≠ .error .hashesExhausted := by
  have hstart : Reaches [.zero, .zero] 5 [true, false, true, true, true] 0 _ :=
    .start (by decide) (by decide)
  have hthree := ((hstart.round rfl).round rfl).round rfl
  have hlast := (hthree.round rfl).round rfl
  obtain ⟨-, hrounds, -, hover⟩ :=
    rebuilding_safe [.zero, .zero] 5 [true, false, true, true, true]
  obtain ⟨-, -, hflags, hused, htidy, hstack⟩ := hrounds 3 _ hthree
  obtain ⟨cell, hcell, hwithin, -⟩ := hstack 3 List.mem_cons_self
  obtain ⟨-, -, -, hcalls⟩ := hover 5 _ hlast rfl
  refine ⟨⟨_, hthree, rfl, hflags, hused, htidy, cell, hcell, ?_, hwithin⟩, _, hlast, rfl,
    by decide +kernel, by decide +kernel, fun nested call hnests => ?_⟩
  · cases hcell
    rfl
  · obtain ⟨hdepth, -, -, hanswer⟩ := hcalls nested call hnests
    exact ⟨hdepth, hanswer⟩

end LightPeer.Merkle
