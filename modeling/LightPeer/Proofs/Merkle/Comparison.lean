import LightPeer.Proofs.Merkle.Soundness

/-!
# Two proofs compared

How far a proof is read depends on its flags and on the size of the block, and on nothing else.
So if the flags of one proof are a prefix of those of another, both are read alike: the parts of
the tree that they show have one shape, the same leaves are matched, and as many hashes are used.
All hashes must be used, and flags come in bytes of which only the last may be padded.  So an
accepted proof cannot be made longer.

If the two also have one root, their hashes are compared from the root down.  At each node both
hash the same two children, or here two different pairs have one hash.

* `Reads.alike` — flags decide what is read;
* `Reads.hashes_eq` — the hashes that are used, and those that are left;
* `Shown.Alike.givens_eq_or_collide` — one hash for two parts of one shape;
* `eq_nil_of_isPadding` — there is no room for another byte of flags;
* `ofFlagBytes_rigid` — these facts about accepted proofs.
-/

namespace LightPeer.Merkle

/-- Two parts of one shape, in which the same leaves are matched. -/
inductive Shown.Alike : Shown → Shown → Prop
  | given {hash hash' : Hash256} {matched : Bool} :
      Alike (.given hash matched) (.given hash' matched)
  | fork {level index : Nat} {left right left' right' : Shown} (hleft : Alike left left')
      (hright : Alike right right') :
      Alike (.fork level index left right) (.fork level index left' right')
  | lone {child child' : Shown} (hchild : Alike child child') : Alike (.lone child) (.lone child')

/-- **The flags alone decide what is read.**  If the flags of two proofs begin alike, the parts that
they show are of one shape, and the one with more flags has these left over as well. -/
theorem Reads.alike {total depth level index : Nat} {supply rest supply' rest' : Supply}
    {shown shown' : Shown} {more : List Bool}
    (h : Reads total depth level index supply shown rest)
    (h' : Reads total depth level index supply' shown' rest')
    (hflags : supply'.flags = supply.flags ++ more) :
    shown.Alike shown' ∧ rest'.flags = rest.flags ++ more := by
  induction h generalizing supply' shown' rest' with
  | leaf =>
    cases h' with
    | leaf =>
      obtain ⟨rfl, hrest⟩ := List.cons.inj hflags
      exact ⟨.given, hrest⟩
  | pruned =>
    cases h' with
    | pruned => exact ⟨.given, (List.cons.inj hflags).2⟩
    | fork => cases (List.cons.inj hflags).1
    | lone => cases (List.cons.inj hflags).1
  | fork hright hl hr ihl ihr =>
    cases h' with
    | pruned => cases (List.cons.inj hflags).1
    | fork _ hl' hr' =>
      obtain ⟨hleft, hbetween⟩ := ihl hl' (List.cons.inj hflags).2
      obtain ⟨hright, hrest⟩ := ihr hr' hbetween
      exact ⟨.fork hleft hright, hrest⟩
    | lone hnone => exact (hnone hright).elim
  | lone hnone hc ih =>
    cases h' with
    | pruned => cases (List.cons.inj hflags).1
    | fork hright => exact (hnone hright).elim
    | lone _ hc' =>
      obtain ⟨hchild, hrest⟩ := ih hc' (List.cons.inj hflags).2
      exact ⟨.lone hchild, hrest⟩

/-- The hashes that a part has taken from the proof, left to right. -/
def Shown.givens : Shown → List Hash256
  | .given hash _ => [hash]
  | .fork _ _ left right => left.givens ++ right.givens
  | .lone child => child.givens

/-- What was read has taken its hashes from the front. -/
theorem Reads.hashes_eq {total depth level index : Nat} {supply rest : Supply} {shown : Shown}
    (h : Reads total depth level index supply shown rest) :
    supply.hashes = shown.givens ++ rest.hashes := by
  induction h with
  | leaf => rfl
  | pruned => rfl
  | fork hright hl hr ihl ihr =>
    rw [Shown.givens, List.append_assoc, ← ihr]
    exact ihl
  | lone hnone hc ih => exact ih

namespace Shown.Alike

variable {shown shown' : Shown}

/-- Parts of one shape have taken as many hashes, which is why two lists of hashes can be compared
one by one. -/
theorem length_givens (h : shown.Alike shown') : shown.givens.length = shown'.givens.length := by
  induction h with
  | given => rfl
  | fork hleft hright ihl ihr =>
    rw [givens, givens, List.length_append, List.length_append, ihl, ihr]
  | lone hchild ih => exact ih

/-- **One hash for two parts of one shape** is either made from the same hashes, or there is a node
of them at which two different pairs have the same hash. -/
theorem givens_eq_or_collide (h : shown.Alike shown') (hhash : shown.hash = shown'.hash)
    (level index : Nat) :
    shown.givens = shown'.givens ∨
      Collide (shown.joints level index) (shown'.joints level index) := by
  induction h generalizing level index with
  | given =>
    left
    exact congrArg (fun hash => [hash]) hhash
  | @fork _ _ left right left' right' hleft hright ihl ihr =>
    by_cases hpair : (left.hash, right.hash) = (left'.hash, right'.hash)
    · obtain ⟨hl, hr⟩ := Prod.mk.inj hpair
      rcases ihl hl (level + 1) (2 * index) with hl | hcollide
      · rcases ihr hr (level + 1) (2 * index + 1) with hr | hcollide
        · left
          rw [givens, givens, hl, hr]
        · exact Or.inr (hcollide.append_left.cons _ _)
      · exact Or.inr (hcollide.append_right.cons _ _)
    · exact Or.inr ⟨_, List.mem_cons_self, _, List.mem_cons_self, rfl, rfl, hpair, hhash⟩
  | @lone child child' hchild ih =>
    by_cases hpair : (child.hash, child.hash) = (child'.hash, child'.hash)
    · rcases ih (Prod.mk.inj hpair).1 (level + 1) (2 * index) with hc | hcollide
      · exact Or.inl hc
      · exact Or.inr (hcollide.cons _ _)
    · exact Or.inr ⟨_, List.mem_cons_self, _, List.mem_cons_self, rfl, rfl, hpair, hhash⟩

end Shown.Alike

/-- The matched leaves of a part whose topmost node is `node`, with their places. -/
def Shown.found (node : Node) : Shown → List (Node × Hash256)
  | .given hash true => [(node, hash)]
  | .given _ false => []
  | .fork _ _ left right => left.found node.left ++ right.found node.right
  | .lone child => child.found node.left

namespace Shown

/-- The hashes of the matched leaves are those that the part matches. -/
theorem map_snd_found (shown : Shown) (node : Node) :
    (shown.found node).map Prod.snd = shown.matched := by
  induction shown generalizing node with
  | given hash matched => cases matched <;> rfl
  | fork level index left right ihl ihr => rw [found, List.map_append, ihl, ihr, matched]
  | lone child ih => rw [found, ih, matched]

/-- In parts of one shape the matched leaves stand at the same places. -/
theorem Alike.map_fst_found {shown shown' : Shown} (h : shown.Alike shown') (node : Node) :
    (shown.found node).map Prod.fst = (shown'.found node).map Prod.fst := by
  induction h generalizing node with
  | @given _ _ matched => cases matched <;> rfl
  | fork hleft hright ihl ihr =>
    rw [found, found, List.map_append, List.map_append, ihl, ihr]
  | lone hchild ih => rw [found, found, ih]

end Shown

/-- What is matched is one of the leaves. -/
theorem Reads.leaf_of_mem_found {total : UInt32} {depth level index : Nat} {supply rest : Supply}
    {shown : Shown} {node : Node} {leaf : Node × Hash256}
    (h : Reads total.toNat depth level index supply shown rest) (hlevel : node.level = level)
    (hindex : node.index.toNat = index) (hexists : index * 2 ^ depth < total.toNat)
    (hfound : leaf ∈ shown.found node) :
    leaf.1.level = level + depth ∧ leaf.1.index < total := by
  induction h generalizing node with
  | @leaf _ _ flag =>
    cases flag with
    | false => cases hfound
    | true =>
      rw [Nat.pow_zero, Nat.mul_one, ← hindex] at hexists
      rw [List.mem_singleton.mp hfound]
      exact ⟨hlevel, UInt32.lt_iff_toNat_lt.mpr hexists⟩
  | pruned => cases hfound
  | @fork depth level index _ _ _ _ _ _ hright hl hr ihl ihr =>
    subst hlevel hindex
    rw [Shown.found] at hfound
    rcases List.mem_append.mp hfound with hfound | hfound
    · have hbelow := left_exists hexists
      rw [toNat_left_index hexists] at hbelow
      obtain ⟨hlevel, hindex⟩ := ihl rfl (toNat_left_index hexists) hbelow hfound
      exact ⟨by omega, hindex⟩
    · obtain ⟨hlevel, hindex⟩ :=
        ihr rfl (toNat_right_index hexists) (lt_widthAbove_iff.mp hright) hfound
      exact ⟨by omega, hindex⟩
  | lone hright hc ih =>
    subst hlevel hindex
    rw [Shown.found] at hfound
    have hbelow := left_exists hexists
    rw [toNat_left_index hexists] at hbelow
    obtain ⟨hlevel, hindex⟩ := ih rfl (toNat_left_index hexists) hbelow hfound
    exact ⟨by omega, hindex⟩

/-- Every bit of every byte is a flag, whether or not a node reads it. -/
theorem length_unpackFlags (bs : Bytes) : (unpackFlags bs).length = 8 * bs.length := by
  induction bs with
  | nil => rfl
  | cons b bs ih =>
    rw [unpackFlags] at ih ⊢
    rw [List.flatMap_cons, List.length_append, ih, List.length_map, List.length_range,
      List.length_cons]
    omega

/-- **Flags come in bytes, and nothing but the last byte is padded**, so none can be added. -/
theorem eq_nil_of_isPadding {bs more : Bytes} {padding : List Bool}
    (hpadding : isPadding ((unpackFlags (bs ++ more)).length -
      (padding ++ unpackFlags more).length) (padding ++ unpackFlags more) = true) : more = [] := by
  rw [isPadding, Bool.and_eq_true, decide_eq_true_eq] at hpadding
  have hreach := hpadding.1
  simp only [List.length_append, length_unpackFlags] at hreach
  refine List.length_eq_zero_iff.mp ?_
  omega

/-- The matched hashes of a part stand at these positions among the transactions. -/
structure Shown.Matches (total : UInt32) (shown : Shown) (positions : List UInt32)
    (hashes : List Hash256) : Prop where
  length_eq : positions.length = hashes.length
  found_eq : shown.found Node.root = (positions.map fun i => ⟨height total, i⟩).zip hashes

/-- Two parts of one shape match the same positions. -/
theorem Reads.matches_of_alike {total : UInt32} {supply rest : Supply} {shown shown' : Shown}
    (htotal : total ≠ 0) (h : Reads total.toNat (height total) 0 0 supply shown rest)
    (halike : shown.Alike shown') :
    ∃ positions, (∀ i ∈ positions, i < total) ∧ shown.Matches total positions shown.matched ∧
      shown'.Matches total positions shown'.matched := by
  have hleaf (leaf) (hfound : leaf ∈ shown.found Node.root) :
      leaf.1.level = height total ∧ leaf.1.index < total := by
    have := h.leaf_of_mem_found rfl rfl (root_exists htotal) hfound
    rwa [Nat.zero_add] at this
  let positions := (shown.found Node.root).map fun leaf => leaf.1.index
  have hplaces : (shown.found Node.root).map Prod.fst =
      positions.map fun i => ⟨height total, i⟩ := by
    rw [List.map_map]
    refine List.map_congr_left fun leaf hfound => ?_
    rw [Function.comp_apply, ← (hleaf leaf hfound).1]
  refine ⟨positions, ?_, ⟨?_, ?_⟩, ?_, ?_⟩
  · intro i hi
    obtain ⟨leaf, hfound, rfl⟩ := List.mem_map.mp hi
    exact (hleaf leaf hfound).2
  · rw [← shown.map_snd_found Node.root, List.length_map, List.length_map]
  · exact List.zip_of_prod hplaces (shown.map_snd_found Node.root)
  · have hlength := congrArg List.length (halike.map_fst_found Node.root)
    rw [List.length_map, List.length_map] at hlength
    rw [← shown'.map_snd_found Node.root, List.length_map, List.length_map, hlength]
  · exact List.zip_of_prod ((halike.map_fst_found Node.root).symm.trans hplaces)
      (shown'.map_snd_found Node.root)

/-- **Accepted proofs can be neither padded nor altered.**  If the flags of one are a prefix of
those of another, the flags are the same, there are as many hashes, and the leaves at the same
positions are matched.  If the roots are the same too, then so are the hashes, unless the two
rebuilt trees, which have one shape, hash two different pairs to one value at one of their nodes. -/
theorem ofFlagBytes_rigid {hashes hashes' : List Hash256} {total : UInt32} {flags flags' : Bytes}
    {tree tree' : PartialTree} (hfirst : ofFlagBytes hashes total flags = .ok tree)
    (hsecond : ofFlagBytes hashes' total flags' = .ok tree') (hbegins : flags <+: flags') :
    flags = flags' ∧ hashes.length = hashes'.length ∧
      ∃ shown shown', Rebuilds hashes total (unpackFlags flags) shown ∧
        Rebuilds hashes' total (unpackFlags flags') shown' ∧
        (∃ positions, (∀ i ∈ positions, i < total) ∧ shown.Matches total positions tree.matched ∧
          shown'.Matches total positions tree'.matched) ∧
        shown.root = .ok tree.root ∧ shown'.root = .ok tree'.root ∧ shown.Alike shown' ∧
        (tree.root = tree'.root →
          hashes = hashes' ∨ Collide (shown.joints 0 0) (shown'.joints 0 0)) := by
  obtain ⟨more, rfl⟩ := hbegins
  obtain ⟨htotal, -, shown, padding, root, hreads, hpadding, hroot, rfl⟩ :=
    build_eq_ok_iff.mp hfirst
  obtain ⟨-, -, shown', padding', root', hreads', hpadding', hroot', rfl⟩ :=
    build_eq_ok_iff.mp hsecond
  have hflags : unpackFlags (flags ++ more) = unpackFlags flags ++ unpackFlags more :=
    List.flatMap_append
  obtain ⟨halike, rfl⟩ := hreads.alike hreads' hflags
  have hmore : more = [] := eq_nil_of_isPadding hpadding'
  subst hmore
  have hhashes : hashes = shown.givens ++ [] := hreads.hashes_eq
  have hhashes' : hashes' = shown'.givens ++ [] := hreads'.hashes_eq
  rw [List.append_nil] at hhashes hhashes'
  refine ⟨(List.append_nil _).symm, ?_, shown, shown', ?_, ?_, ?_, hroot, hroot', halike, ?_⟩
  · rw [hhashes, hhashes', halike.length_givens]
  · exact hreads.rebuilds htotal
  · exact hreads'.rebuilds htotal
  · exact hreads.matches_of_alike htotal halike
  · intro hsame
    rw [hhashes, hhashes']
    refine halike.givens_eq_or_collide ?_ 0 0
    rw [Shown.hash_of_root hroot, Shown.hash_of_root hroot']
    exact hsame

/-- One of two transactions is matched, in a block and in the block with both exchanged. -/
theorem ofFlagBytes_rigid_swapped :
    ofFlagBytes [.zero, ones] 2 [3] = .ok ⟨2, 1, Hash256.pair .zero ones, [.zero]⟩ ∧
      ofFlagBytes [ones, .zero] 2 [3] = .ok ⟨2, 1, Hash256.pair ones .zero, [ones]⟩ ∧
      ∃ shown shown' positions, Rebuilds [.zero, ones] 2 (unpackFlags [3]) shown ∧
        Rebuilds [ones, .zero] 2 (unpackFlags [3]) shown' ∧
        shown.Matches 2 positions [.zero] ∧ shown'.Matches 2 positions [ones] ∧
        (Hash256.pair .zero ones = Hash256.pair ones .zero →
          Collide (shown.joints 0 0) (shown'.joints 0 0)) := by
  have hfirst : ofFlagBytes [.zero, ones] 2 [3] =
      .ok ⟨2, 1, Hash256.pair .zero ones, [.zero]⟩ := build_eq (by decide) (by decide)
  have hsecond : ofFlagBytes [ones, .zero] 2 [3] =
      .ok ⟨2, 1, Hash256.pair ones .zero, [ones]⟩ := build_eq (by decide) (by decide)
  obtain ⟨-, -, shown, shown', hrebuilds, hrebuilds', ⟨positions, -, hmatches, hmatches'⟩, -, -, -,
    hbinds⟩ := ofFlagBytes_rigid hfirst hsecond (List.prefix_refl [3])
  refine ⟨hfirst, hsecond, shown, shown', positions, hrebuilds, hrebuilds', hmatches, hmatches', ?_⟩
  intro hsame
  refine (hbinds hsame).resolve_left fun hhashes => ?_
  have hbytes := congrArg Hash256.bytes (List.cons.inj hhashes).1
  revert hbytes
  decide

end LightPeer.Merkle
