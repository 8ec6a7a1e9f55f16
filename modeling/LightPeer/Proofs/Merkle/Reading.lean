import LightPeer.Merkle.Descent

/-!
# Readings of a proof

A descent that comes to an end has read the part of the tree that the proof shows.
`Reads` says which part that is, one rule for each kind of node, and a descent finds
exactly these parts (`Reads.descend_eq`, `reads_of_descend_eq`).  All that is proved of
parts of a tree is proved by induction on the rules.
-/

namespace LightPeer.Merkle

/-- `shown` is read from the first supply, which leaves the second one.  The topmost
node stands at a level and a position, and `depth` levels above the leaves. -/
inductive Reads (total : Nat) : Nat → Nat → Nat → Supply → Shown → Supply → Prop
  | leaf {level index : Nat} {flag : Bool} {flags : List Bool} {hash : Hash256}
      {hashes : List Hash256} :
      Reads total 0 level index ⟨flag :: flags, hash :: hashes⟩ (.given hash flag) ⟨flags, hashes⟩
  | pruned {depth level index : Nat} {flags : List Bool} {hash : Hash256}
      {hashes : List Hash256} :
      Reads total (depth + 1) level index ⟨false :: flags, hash :: hashes⟩ (.given hash false)
        ⟨flags, hashes⟩
  | fork {depth level index : Nat} {flags : List Bool} {hashes : List Hash256}
      {left right : Shown} {between rest : Supply}
      (hright : 2 * index + 1 < widthAbove total depth)
      (hl : Reads total depth (level + 1) (2 * index) ⟨flags, hashes⟩ left between)
      (hr : Reads total depth (level + 1) (2 * index + 1) between right rest) :
      Reads total (depth + 1) level index ⟨true :: flags, hashes⟩
        (.fork (level + 1) (2 * index + 1) left right) rest
  | lone {depth level index : Nat} {flags : List Bool} {hashes : List Hash256}
      {child : Shown} {rest : Supply}
      (hright : ¬ 2 * index + 1 < widthAbove total depth)
      (hc : Reads total depth (level + 1) (2 * index) ⟨flags, hashes⟩ child rest) :
      Reads total (depth + 1) level index ⟨true :: flags, hashes⟩ (.lone child) rest

variable {total depth level index : Nat} {supply rest : Supply} {shown : Shown}

/-- The descent computes what the rules allow, with a step for every rule. -/
theorem Reads.descend_eq (h : Reads total depth level index supply shown rest) :
    descend total depth level index supply = .ok (shown, rest) := by
  induction h with
  | leaf => rfl
  | pruned => rfl
  | fork hright hl hr ihl ihr =>
    simp only [descend, ihl, ihr, bind, Except.bind, hright, if_true, pure, Except.pure]
  | lone hright hc ih =>
    simp only [descend, ih, bind, Except.bind, hright, if_false, pure, Except.pure]

/-- What the descent answers follows from the rules, so that they say all there is to say of it. -/
theorem reads_of_descend_eq (h : descend total depth level index supply = .ok (shown, rest)) :
    Reads total depth level index supply shown rest := by
  induction depth generalizing level index supply shown rest with
  | zero =>
    match supply, h with
    | ⟨_ :: _, _ :: _⟩, h => cases h; exact .leaf
  | succ depth ih =>
    match supply, h with
    | ⟨false :: _, _ :: _⟩, h => cases h; exact .pruned
    | ⟨true :: flags, hashes⟩, h =>
      rw [descend] at h
      cases hl : descend total depth (level + 1) (2 * index) ⟨flags, hashes⟩ with
      | error e => rw [hl] at h; cases h
      | ok answer =>
        obtain ⟨left, between⟩ := answer
        simp only [hl, bind, Except.bind] at h
        by_cases hright : 2 * index + 1 < widthAbove total depth
        · rw [if_pos hright] at h
          cases hr : descend total depth (level + 1) (2 * index + 1) between with
          | error e => rw [hr] at h; cases h
          | ok answer =>
            rw [hr] at h
            cases h
            exact .fork hright (ih hl) (ih hr)
        · rw [if_neg hright] at h
          cases h
          exact .lone hright (ih hl)

end LightPeer.Merkle
