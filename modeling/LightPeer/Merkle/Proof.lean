import LightPeer.Merkle.Arena

/-!
# Proofs that transactions belong to a block

A proof is a walk over the Merkle tree of the block, each node before its
children and the left child first.  Every visited node takes one flag.  A node
above the leaves whose flag is set is expanded: its children are visited too.
Any other node takes one hash, and a leaf whose flag is set is matched.

`walk` follows the proof round by round and keeps the nodes that it comes to;
`Arena.fill` goes down from the root a second time and computes the hashes of the
expanded nodes; `build` does both and refuses a proof that has anything left over or
that gives equal hashes to two siblings.
-/

namespace LightPeer.Merkle

/-- Why a proof is refused. -/
inductive Error
  | noTransactions
  | tooManyHashes (hashes : Nat) (transactions : UInt32)
  | flagsExhausted
  | hashesExhausted
  | unusedHashes (count : Nat)
  | unusedFlags
  | duplicateSiblings (node : Node)
  | rootMismatch (expected computed : Hash256)
  deriving DecidableEq

/-- The text of a refusal. -/
def Error.message : Error → String
  | .noTransactions => "Proof covers zero transactions"
  | .tooManyHashes hashes transactions =>
    s!"Proof carries {hashes} hashes for {transactions} transactions"
  | .flagsExhausted => "Ran out of flag bits while walking the tree"
  | .hashesExhausted => "Ran out of hashes while walking the tree"
  | .unusedHashes count => s!"{count} hashes left unused after walking the tree"
  | .unusedFlags => "Flag bits left unused after walking the tree"
  | .duplicateSiblings node =>
    s!"Identical sibling hashes at height {node.level}, index {node.index}"
  | .rootMismatch expected computed =>
    "Merkle root mismatch: header has " ++ expected.display ++ ", proof yields " ++ computed.display

/-- What a walk holds between two rounds. -/
structure Walking where
  /-- The nodes that it has come to. -/
  arena : Arena
  /-- The places of the nodes that are still to be visited, the next one first. -/
  stack : List Nat
  pending : ∀ id ∈ stack, id < arena.cells.size
  flags : List Bool
  hashes : List Hash256
  /-- The hashes of the matched leaves. -/
  matched : Array Hash256
  /-- How many flags have been taken. -/
  used : Nat

namespace Walking

/-- Before the first round the root is to be visited. -/
def start (flags : List Bool) (hashes : List Hash256) : Walking where
  arena := .root
  stack := [0]
  pending := by
    intro id hid
    rw [List.mem_singleton.mp hid]
    exact Arena.root.nonempty
  flags
  hashes
  matched := #[]
  used := 0

/-- Adds the children of a node, which are visited next, the left one first. -/
def expand (s : Walking) (id : Nat) (hid : id < s.arena.cells.size) (twoChildren : Bool) :
    Walking :=
  let left := s.arena.cells.size
  let grown := s.arena.grow id hid .left
  have hgrown : grown.cells.size = left + 1 := Arena.size_grow ..
  have hleft : left < grown.cells.size := by rw [hgrown]; exact Nat.lt_succ_self _
  have hold : ∀ other ∈ s.stack, other < left := s.pending
  if twoChildren then
    let right := grown.cells.size
    have hparent : id < grown.cells.size := Nat.lt_trans hid hleft
    let both := grown.grow id hparent .right
    have hboth : both.cells.size = right + 1 := Arena.size_grow ..
    { s with
      arena := both
      stack := left :: right :: s.stack
      pending := by
        intro other hother
        rw [hboth]
        rcases List.mem_cons.mp hother with rfl | hother
        · exact Nat.lt_succ_of_lt hleft
        · rcases List.mem_cons.mp hother with rfl | hother
          · exact Nat.lt_succ_self _
          · exact Nat.lt_succ_of_lt (Nat.lt_trans (hold other hother) hleft) }
  else
    { s with
      arena := grown
      stack := left :: s.stack
      pending := by
        intro other hother
        rcases List.mem_cons.mp hother with rfl | hother
        · exact hleft
        · exact Nat.lt_trans (hold other hother) hleft }

end Walking

/-- What becomes of a walk in a round. -/
inductive Round
  /-- No node is left to be visited. -/
  | over
  | refused (cause : Error)
  | next (s : Walking)

/-- The next node is visited:  it takes a flag, and then its children are added or it takes a
hash. -/
def Walking.round (total : UInt32) (height : Nat) : Walking → Round
  | ⟨_, [], _, _, _, _, _⟩ => .over
  | ⟨_, _ :: _, _, [], _, _, _⟩ => .refused .flagsExhausted
  | ⟨arena, id :: stack, hpending, flag :: flags, hashes, matched, used⟩ =>
    have hid : id < arena.cells.size := hpending id List.mem_cons_self
    have hstack : ∀ other ∈ stack, other < arena.cells.size :=
      fun other hother => hpending other (List.mem_cons_of_mem id hother)
    let node := arena.cells[id].node
    if flag && node.level < height then
      let rest : Walking := ⟨arena, stack, hstack, flags, hashes, matched, used + 1⟩
      .next (rest.expand id hid (node.hasRight total height))
    else
      match hashes with
      | [] => .refused .hashesExhausted
      | hash :: hashes =>
        .next
          { arena := arena.give id hash
            stack
            pending := by
              intro other hother
              rw [Arena.size_give]
              exact hstack other hother
            flags
            hashes
            matched := if flag then matched.push hash else matched
            used := used + 1 }

@[simp] theorem Walking.flags_expand (s : Walking) (id : Nat) (hid : id < s.arena.cells.size)
    (twoChildren : Bool) : (s.expand id hid twoChildren).flags = s.flags := by
  cases twoChildren <;> rfl

/-- A round takes one flag. -/
theorem Walking.flags_of_round {total : UInt32} {height : Nat} {s s' : Walking}
    (h : s.round total height = .next s') : ∃ flag, s.flags = flag :: s'.flags := by
  obtain ⟨arena, _ | ⟨id, stack⟩, hpending, _ | ⟨flag, flags⟩, hashes, matched, used⟩ := s
  · cases h
  · cases h
  · cases h
  · refine ⟨flag, ?_⟩
    rw [round.eq_def] at h
    dsimp only at h ⊢
    split at h
    · cases h
      rw [flags_expand]
    · cases hashes with
      | nil => cases h
      | cons hash hashes =>
        cases h
        rfl

/-- Visits all nodes that the proof leads to. -/
def walk (total : UInt32) (height : Nat) (s : Walking) : Except Error Walking :=
  match _hround : s.round total height with
  | .over => .ok s
  | .refused cause => .error cause
  | .next s' => walk total height s'
termination_by s.flags.length
decreasing_by
  obtain ⟨flag, hflags⟩ := Walking.flags_of_round _hround
  rw [hflags]
  exact Nat.lt_succ_self _

/-- The hash of a node, and the nodes when it is known. -/
structure Filled (size : Nat) where
  hash : Hash256
  arena : Arena
  size_eq : arena.cells.size = size

/-- Notes the hash of a node when it is known. -/
def Arena.noted {size : Nat} (a : Arena) (hsize : a.cells.size = size) (id : Nat)
    (hash : Hash256) : Filled size :=
  ⟨hash, a.give id hash, (size_give ..).trans hsize⟩

/-- Computes the hash of a node from those of its children, and notes the hashes on the way.  An
only child is paired with itself. -/
def Arena.fill (a : Arena) (id : Nat) (hid : id < a.cells.size) :
    Except Error (Filled a.cells.size) :=
  match a.cells[id].hash with
  | some hash => .ok ⟨hash, a, rfl⟩
  | none =>
    match a.child? id hid .left with
    | none => .error .hashesExhausted
    | some ⟨left, hleft⟩ =>
      match a.fill left hleft.2 with
      | .error cause => .error cause
      | .ok ⟨leftHash, b, hb⟩ =>
        match b.child? id (Nat.lt_of_lt_of_eq hid hb.symm) .right with
        | none => .ok (b.noted hb id (Hash256.pair leftHash leftHash))
        | some ⟨right, hright⟩ =>
          match b.fill right hright.2 with
          | .error cause => .error cause
          | .ok ⟨rightHash, c, hc⟩ =>
            have hplace : right < c.cells.size := Nat.lt_of_lt_of_eq hright.2 hc.symm
            if rightHash = leftHash then .error (.duplicateSiblings c.cells[right].node)
            else .ok (c.noted (hc.trans hb) id (Hash256.pair leftHash rightHash))
termination_by a.cells.size - id
decreasing_by all_goals omega

/-- What a proof establishes. -/
structure PartialTree where
  total : UInt32
  height : Nat
  root : Hash256
  /-- The hashes of the matched transactions, in the order of the block. -/
  matched : List Hash256
  deriving DecidableEq

/-- Whether the flags left over only fill up the last byte: none of them is set, and
they reach no further than the next multiple of eight. -/
def isPadding (used : Nat) (flags : List Bool) : Bool :=
  used + flags.length ≤ (used + 7) / 8 * 8 && flags.all (! ·)

/-- Follows a proof for a block of `total` transactions. -/
def build (hashes : List Hash256) (total : UInt32) (flags : List Bool) :
    Except Error PartialTree :=
  if total = 0 then .error .noTransactions
  else if total.toNat < hashes.length then .error (.tooManyHashes hashes.length total)
  else
    let height := height total
    match walk total height (.start flags hashes) with
    | .error e => .error e
    | .ok s =>
      if s.hashes ≠ [] then .error (.unusedHashes s.hashes.length)
      else if ! isPadding s.used s.flags then .error .unusedFlags
      else
        match s.arena.fill 0 s.arena.nonempty with
        | .error e => .error e
        | .ok filled => .ok ⟨total, height, filled.hash, s.matched.toList⟩

/-- The bits of packed flags, least significant bit of each byte first. -/
def unpackFlags (bs : Bytes) : List Bool :=
  bs.flatMap fun b => (List.range 8).map fun i => b.toNat.testBit i

/-- Follows a proof whose flags are packed. -/
def ofFlagBytes (hashes : List Hash256) (total : UInt32) (flags : Bytes) :
    Except Error PartialTree :=
  build hashes total (unpackFlags flags)

/-- Compares the root with the one of a block header. -/
def PartialTree.verifyRoot (tree : PartialTree) (expected : Hash256) : Except Error Unit :=
  if tree.root = expected then .ok () else .error (.rootMismatch expected tree.root)

end LightPeer.Merkle
