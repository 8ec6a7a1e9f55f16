import LightPeer.Proofs.Net.Numbers

/-!
# Addresses and their texts

The text of an address of version 6 has one of three forms, and colons stand between its groups in
all of them.  The reader tries an address of version 4 at the beginning of each group; since a colon
comes before the next dot, it finds one only where one is embedded.

* `ofGroups_groups`, `groups_of_toIPv4?` — an address and its groups;
* `zeros_longestRun`, `text_forms` — what a text leaves out are zeros;
* `readGroups_joinGroups`, `readV6?_gap`, `readV6?_text` — an address is read from each form;
* `readV4?_textV6`, `readV6?_textV4` — no address is taken for one of the other version;
* `ofText?_text` — so every address is read from its text;
* `isTextChar_of_mem_text` — no other characters than digits, dots and colons stand in it.
-/

namespace LightPeer

namespace IPv6

variable {bs : Bytes} {gs : List Nat}

/-- A group is two bytes, the first of them the more significant one. -/
theorem ofNat_group (high low : UInt8) :
    Bytes.ofNat .big 2 (256 * high.toNat + low.toNat) = [high, low] := by
  have hnumber : Bytes.toNat .big [high, low] = 256 * high.toNat + low.toNat := by
    simp only [Bytes.toNat, Bytes.toNatLittle, List.reverse_cons, List.reverse_nil, List.nil_append,
      List.cons_append]
    omega
  rw [← hnumber]
  exact Bytes.ofNat_toNat .big [high, low]

/-- Bytes in pairs are as many as their groups, none of which is too large. -/
theorem groupsOf_spec (n : Nat) (h : bs.length = 2 * n) :
    (groupsOf bs).length = n ∧ (∀ g ∈ groupsOf bs, g < 65536) ∧
      (groupsOf bs).flatMap (Bytes.ofNat .big 2) = bs := by
  induction n generalizing bs with
  | zero =>
    rw [List.length_eq_zero_iff.mp h]
    exact ⟨rfl, by rintro _ ⟨⟩, rfl⟩
  | succ n ih =>
    obtain _ | ⟨high, _ | ⟨low, bs⟩⟩ := bs
    · cases h
    · simp only [List.length_cons, List.length_nil] at h
      omega
    · have hhigh := high.toNat_lt
      have hlow := low.toNat_lt
      simp only [List.length_cons] at h
      have hrest : bs.length = 2 * n := by omega
      obtain ⟨hlength, hall, hback⟩ := ih hrest
      refine ⟨congrArg (· + 1) hlength, List.forall_mem_cons.mpr ⟨by omega, hall⟩, ?_⟩
      rw [groupsOf, List.flatMap_cons, hback, ofNat_group]
      rfl

/-- An address has eight groups. -/
theorem length_groups (a : IPv6) : a.groups.length = 8 := (groupsOf_spec 8 a.length_bytes).1

/-- A group is a number of sixteen bits. -/
theorem lt_of_mem_groups {a : IPv6} {g : Nat} (h : g ∈ a.groups) : g < 65536 :=
  (groupsOf_spec 8 a.length_bytes).2.1 g h

/-- **An address is made of its groups.** -/
theorem ofGroups_groups (a : IPv6) : ofGroups a.groups = a := by
  have hback := (groupsOf_spec 8 a.length_bytes).2.2
  cases a
  rw [ofGroups, IPv6.mk.injEq, List.take_append_of_le_length (Nat.le_of_eq (length_groups _).symm),
    List.take_of_length_le (Nat.le_of_eq (length_groups _)), groups, hback]

/-- The groups of an address that embeds another one are zeros, a group of ones and the groups of
that one. -/
theorem groups_of_toIPv4? {a : IPv6} {v4 : IPv4} (h : a.toIPv4? = some v4) :
    a.groups = List.replicate 5 0 ++ 65535 :: groupsOf v4.bytes := by
  rw [toIPv4?] at h
  split at h
  · next hlead =>
    cases h
    have hlength := a.length_bytes
    have hbytes : a.bytes = mappedLead ++ a.bytes.drop 12 := by
      rw [← hlead, List.take_append_drop]
    rw [IPv4.bytes_ofBytes (by rw [List.length_drop, hlength]), groups, hbytes]
    rfl
  · cases h

/-- From the given place on so many groups are zeros. -/
def Zeros (gs : List Nat) (run : Nat × Nat) : Prop :=
  run.1 + run.2 ≤ gs.length ∧ ∀ k, run.1 ≤ k → k < run.1 + run.2 → gs[k]? = some 0

/-- **The run that is found is one of zeros.** -/
theorem zeros_longestRun {i run : Nat} {best : Nat × Nat} {ahead : List Nat}
    (hi : gs.drop i = ahead) (hrun : run ≤ i) (hcurrent : Zeros gs (i - run, run))
    (hbest : Zeros gs best) :
    Zeros gs (longestRun i run best ahead) := by
  induction ahead generalizing i run best with
  | nil => exact hbest
  | cons g ahead ih =>
    have hlt : i < gs.length := by
      rw [← Nat.not_le, ← List.drop_eq_nil_iff, hi]
      rintro ⟨⟩
    have hhead : gs[i]? = some g := by rw [← List.head?_drop, hi]; rfl
    have hnext : gs.drop (i + 1) = ahead := by rw [← List.tail_drop, hi]; rfl
    rw [longestRun]
    split
    · next hzero =>
      have hlonger : Zeros gs (i + 1 - (run + 1), run + 1) := by
        refine ⟨by simp only; omega, fun k hlow hhigh => ?_⟩
        simp only at hlow hhigh
        rcases Nat.lt_or_ge k i with hk | hk
        · exact hcurrent.2 k (by simp only; omega) (by simp only; omega)
        · rw [show k = i by omega, hhead, hzero]
      refine ih hnext (by omega) hlonger ?_
      split
      · exact hlonger
      · exact hbest
    · refine ih hnext (Nat.zero_le _) ⟨hlt, ?_⟩ hbest
      intro k hlow hhigh
      simp only at hlow hhigh
      omega

/-- The groups around a run of zeros and the run are all groups. -/
theorem Zeros.take_drop {start length : Nat} (h : Zeros gs (start, length)) :
    gs.take start ++ List.replicate length 0 ++ gs.drop (start + length) = gs := by
  obtain ⟨hinside, hzero⟩ := h
  have hrun : (gs.drop start).take length = List.replicate length 0 := by
    refine List.eq_replicate_iff.mpr ⟨?_, fun g hg => ?_⟩
    · rw [List.length_take, List.length_drop]
      exact Nat.min_eq_left (Nat.le_sub_of_add_le' hinside)
    · obtain ⟨k, hk⟩ := List.mem_iff_getElem?.mp hg
      rw [List.getElem?_take, List.getElem?_drop] at hk
      split at hk
      · next hlt =>
        rw [hzero _ (Nat.le_add_right ..) (Nat.add_lt_add_left hlt _)] at hk
        exact (Option.some.inj hk).symm
      · cases hk
  rw [← hrun, List.append_assoc, ← List.drop_drop, List.take_append_drop, List.take_append_drop]

/-- A colon and a group behind it. -/
def behind (g : Nat) : List Char := ':' :: Nat.toDigits 16 g

/-- The first group has no colon before it. -/
theorem toList_joinGroups_cons (g : Nat) (gs : List Nat) :
    (joinGroups (g :: gs)).toList = Nat.toDigits 16 g ++ gs.flatMap behind := by
  rw [joinGroups, String.toList_intercalate]
  induction gs generalizing g with
  | nil =>
    rw [List.flatMap_nil, List.append_nil, List.map_singleton, List.map_singleton,
      List.intercalate_singleton]
    exact String.toList_ofList
  | cons g' gs ih =>
    rw [List.map_cons, List.map_cons, List.map_cons, List.map_cons, List.intercalate_cons_cons,
      ← List.map_cons, ← List.map_cons, ih, Text.hexDigits, String.toList_ofList, List.flatMap_cons,
      List.append_assoc]
    rfl

/-- **The forms of a text**: an embedded address behind ones, groups around a run of zeros that is
left out, or all eight groups. -/
theorem text_forms (a : IPv6) :
    (∃ v4, a.toIPv4? = some v4 ∧
      a.text.toList = ':' :: ':' :: (Nat.toDigits 16 65535 ++ ':' :: v4.text.toList)) ∨
    (∃ front back n, 1 < n ∧ a.groups = front ++ List.replicate n 0 ++ back ∧
      a.text.toList = (joinGroups front).toList ++ ':' :: ':' :: (joinGroups back).toList) ∨
    a.text = joinGroups a.groups := by
  rw [text]
  split
  · next v4 hv4 =>
    refine .inl ⟨v4, hv4, ?_⟩
    rw [String.toList_append]
    rfl
  · dsimp only
    split
    · next hlong =>
      have hzeros : Zeros a.groups (longestRun 0 0 (0, 0) a.groups) := by
        have hnone : Zeros a.groups (0, 0) :=
          ⟨Nat.zero_le _, fun k _ hk => absurd hk (Nat.not_lt_zero k)⟩
        exact zeros_longestRun rfl (Nat.le_refl 0) hnone hnone
      refine .inr (.inl ⟨_, _, _, hlong, hzeros.take_drop.symm, ?_⟩)
      simp only [String.toList_append, List.append_assoc]
      rfl
    · exact .inr (.inr rfl)

end IPv6

namespace Ip

variable {g room : Nat} {gs : List Nat} {rest : List Char}

/-- There is no dot among the digits of a group. -/
theorem not_mem_toDigits : '.' ∉ Nat.toDigits 16 g :=
  fun h => digitValue?_of_mem (by decide) (by decide) h (by decide)

/-- A group that was written is read, up to what stops it. -/
theorem readGroup (hg : g < 65536) (hstops : Stops rest) :
    readNumber? 16 65536 4 true (Nat.toDigits 16 g ++ rest) = some (g, rest) :=
  readNumber?_toDigits true (by decide) (by decide) hg
    ((Nat.length_toDigits_le_iff (by decide) (by decide)).mpr hg) hstops

/-- What stands behind groups is no further group. -/
def Closes (rest : List Char) : Prop := Ends rest ∧ ∀ cs, rest = ':' :: cs → Ends cs

/-- What stands behind groups ends them, if it ends the last one. -/
theorem ends_behind (hends : Ends rest) : Ends (gs.flatMap IPv6.behind ++ rest) := by
  cases gs with
  | nil => exact hends
  | cons => exact ends_cons (by decide) (by decide)

/-- Groups but the first begin behind a colon, which is taken together with them. -/
theorem start_colon (cs : List Char) :
    (if false then some (':' :: cs) else readChar? ':' (':' :: cs)) = some cs :=
  readChar?_cons ':' cs

/-- One group, behind a colon unless it is the first one. -/
theorem readGroups_cons (first : Bool) {cs start : List Char}
    (hstart : (if first then some cs else readChar? ':' cs) = some start)
    (hread : start = Nat.toDigits 16 g ++ rest) (hg : g < 65536) (hends : Ends rest) :
    readGroups first (room + 1) cs =
      { readGroups false room rest with groups := g :: (readGroups false room rest).groups } := by
  subst hread
  have hnone : readV4? (Nat.toDigits 16 g ++ rest) = none := readV4?_eq_none not_mem_toDigits hends
  rw [readGroups, hstart]
  simp only [Option.bind_some, hnone, ite_self, readGroup hg hends.1]

/-- No group stands where none begins. -/
theorem readGroups_eq_nil {first : Bool} {cs : List Char}
    (hnone : ∀ start, (if first then some cs else readChar? ':' cs) = some start → Ends start) :
    readGroups first room cs = ⟨[], false, cs⟩ := by
  cases room with
  | zero => rfl
  | succ room =>
    rw [readGroups]
    cases hstart : (if first then some cs else readChar? ':' cs) with
    | none => simp only [Option.bind_none, ite_self]
    | some start =>
      have hends := hnone start hstart
      have hv4 : readV4? start = none := readV4?_eq_none List.not_mem_nil hends
      simp only [Option.bind_some, hv4, ite_self,
        readNumber?_of_stops true (Nat.le_refl 16) hends.1]

/-- All groups behind colons are read, and no more: either there is no room left for another one, or
none stands behind them. -/
theorem readGroups_behind (hall : ∀ g ∈ gs, g < 65536) (hroom : gs.length ≤ room)
    (hends : Ends rest) (hcloses : gs.length = room ∨ Closes rest) :
    readGroups false room (gs.flatMap IPv6.behind ++ rest) = ⟨gs, false, rest⟩ := by
  induction gs generalizing room with
  | nil =>
    rcases hcloses with hfull | hcloses
    · cases hfull
      rfl
    · exact readGroups_eq_nil fun start hstart => hcloses.2 start (eq_of_readChar? hstart)
  | cons g gs ih =>
    obtain _ | room := room
    · cases hroom
    · rw [List.forall_mem_cons] at hall
      rw [List.flatMap_cons, List.append_assoc, IPv6.behind, List.cons_append,
        readGroups_cons false (start_colon _) rfl hall.1 (ends_behind hends),
        ih hall.2 (Nat.le_of_succ_le_succ hroom) (hcloses.imp_left Nat.succ.inj)]

/-- **Groups between colons are read from their text**, up to what can neither go on with a group
nor begin another. -/
theorem readGroups_joinGroups (hall : ∀ g ∈ gs, g < 65536) (hroom : gs.length ≤ room)
    (hends : Ends rest) (hcloses : gs.length = room ∨ Closes rest) :
    readGroups true room ((IPv6.joinGroups gs).toList ++ rest) = ⟨gs, false, rest⟩ := by
  cases gs with
  | nil => exact readGroups_eq_nil fun start hstart => Option.some.inj hstart ▸ hends
  | cons g gs =>
    obtain _ | room := room
    · cases hroom
    · rw [List.forall_mem_cons] at hall
      rw [IPv6.toList_joinGroups_cons, List.append_assoc,
        readGroups_cons true rfl rfl hall.1 (ends_behind hends),
        readGroups_behind hall.2 (Nat.le_of_succ_le_succ hroom) hends
          (hcloses.imp_left Nat.succ.inj)]

/-- Where no colon stands behind groups there are no more of them. -/
theorem closes_of_head? (hends : Ends rest) (hcolon : rest.head? ≠ some ':') : Closes rest := by
  refine ⟨hends, ?_⟩
  rintro cs rfl
  exact absurd rfl hcolon

/-- Two colons behind some groups stand for as many zeros as are left over. -/
theorem readV6?_gap {front : List Nat} (hall : ∀ g ∈ front, g < 65536) (hfew : front.length < 8)
    (cs : List Char) :
    readV6? ((IPv6.joinGroups front).toList ++ ':' :: ':' :: cs) =
      let tail := readGroups true (7 - front.length) cs
      some (IPv6.ofGroups (front ++ List.replicate (8 - front.length - tail.groups.length) 0 ++
        tail.groups), tail.rest) := by
  have hcolon (cs : List Char) : Ends (':' :: cs) := ends_cons (by decide) (by decide)
  have hcloses : Closes (':' :: ':' :: cs) := ⟨hcolon _, by rintro _ ⟨⟩; exact hcolon cs⟩
  have hread := readGroups_joinGroups hall (Nat.le_of_lt hfew) (hcolon _) (.inr hcloses)
  rw [readV6?, hread]
  simp only [if_neg (Nat.ne_of_lt hfew), Bool.false_eq_true, if_false, readChar?_cons,
    Option.bind_some]

/-- Where there is room for two groups, an address of version 4 stands for them. -/
theorem readGroups_text (first : Bool) (v4 : IPv4) {cs : List Char}
    (hstart : (if first then some cs else readChar? ':' cs) = some (v4.text.toList ++ rest))
    (hroom : 1 < room) (hstops : Stops rest) :
    readGroups first room cs = ⟨IPv6.groupsOf v4.bytes, true, rest⟩ := by
  obtain _ | room := room
  · cases hroom
  · have hmore : room ≠ 0 := Nat.ne_of_gt (Nat.lt_of_succ_lt_succ hroom)
    rw [readGroups, hstart]
    simp only [if_neg hmore, Option.bind_some, readV4?_text v4 hstops]

theorem length_groupsOf_bytes (v4 : IPv4) : (IPv6.groupsOf v4.bytes).length = 2 :=
  (IPv6.groupsOf_spec 2 (Bytes.length_ofNat ..)).1

/-- **An address of version 6 is read from its text**, whatever its form. -/
theorem readV6?_text (a : IPv6) (hends : Ends rest) (hcolon : rest.head? ≠ some ':') :
    readV6? (a.text.toList ++ rest) = some (a, rest) := by
  have hcloses := closes_of_head? hends hcolon
  obtain ⟨v4, hv4, htext⟩ | ⟨front, back, n, hn, hgroups, htext⟩ | htext := a.text_forms
  · have htail : readGroups true 7 (Nat.toDigits 16 65535 ++ ':' :: (v4.text.toList ++ rest)) =
        ⟨65535 :: IPv6.groupsOf v4.bytes, true, rest⟩ := by
      rw [readGroups_cons true rfl rfl (by decide) (ends_cons (by decide) (by decide)),
        readGroups_text false v4 (start_colon _) (by decide) hends.1]
    have hnone : ∀ g ∈ ([] : List Nat), g < 65536 := by rintro _ ⟨⟩
    -- The group of ones and the embedded address are three groups, so five zeros are left over.
    rw [htext, List.cons_append, List.cons_append, List.append_assoc, List.cons_append]
    refine (readV6?_gap hnone (by decide) _).trans ?_
    simp only [List.length_nil, htail, List.length_cons, length_groupsOf_bytes]
    rw [← a.ofGroups_groups, IPv6.groups_of_toIPv4? hv4]
    rfl
  · have hlength := a.length_groups
    have hlt {g : Nat} : g ∈ a.groups → g < 65536 := a.lt_of_mem_groups
    rw [hgroups] at hlength hlt
    simp only [List.length_append, List.length_replicate] at hlength
    have hfront : ∀ g ∈ front, g < 65536 := fun g hg =>
      hlt (List.mem_append_left _ (List.mem_append_left _ hg))
    have hback : readGroups true (7 - front.length) ((IPv6.joinGroups back).toList ++ rest) =
        ⟨back, false, rest⟩ :=
      readGroups_joinGroups (fun g hg => hlt (List.mem_append_right _ hg)) (by omega) hends
        (.inr hcloses)
    rw [htext, List.append_assoc, List.cons_append, List.cons_append,
      readV6?_gap hfront (by omega), hback]
    simp only [show 8 - front.length - back.length = n by omega, ← hgroups, a.ofGroups_groups]
  · have hread := readGroups_joinGroups (fun g => a.lt_of_mem_groups) (Nat.le_of_eq a.length_groups)
      hends (.inl a.length_groups)
    rw [readV6?, htext, hread]
    simp only [a.length_groups, if_true, a.ofGroups_groups]

/-- An address of version 4 is not one of version 6. -/
theorem readV6?_textV4 (a : IPv4) (hstops : Stops rest) :
    readV6? (a.text.toList ++ rest) = none := by
  rw [readV6?, readGroups_text true a rfl (by decide) hstops]
  simp only [length_groupsOf_bytes, Nat.reduceEqDiff, if_false, if_true]

/-- A row of groups is never taken for an address of the old form, since no dot stands behind the
first number. -/
theorem readV4?_joinGroups (gs : List Nat) (hends : Ends rest) :
    readV4? ((IPv6.joinGroups gs).toList ++ rest) = none := by
  cases gs with
  | nil => exact readV4?_eq_none List.not_mem_nil hends
  | cons g gs =>
    rw [IPv6.toList_joinGroups_cons, List.append_assoc]
    exact readV4?_eq_none not_mem_toDigits (ends_behind hends)

/-- An address of version 6 is not one of version 4, not even at its front: a colon comes before the
first dot. -/
theorem readV4?_textV6 (a : IPv6) (hends : Ends rest) :
    readV4? (a.text.toList ++ rest) = none := by
  have hcolon (cs : List Char) : Ends (':' :: cs) := ends_cons (by decide) (by decide)
  obtain ⟨v4, -, htext⟩ | ⟨front, back, n, -, -, htext⟩ | htext := a.text_forms
  · rw [htext, List.cons_append]
    exact readV4?_joinGroups [] (hcolon _)
  · rw [htext, List.append_assoc]
    exact readV4?_joinGroups front (hcolon _)
  · rw [htext]
    exact readV4?_joinGroups _ hends

/-- **An address is read from its text.** -/
theorem ofText?_text (ip : Ip) : ofText? ip.text.toList = some ip := by
  cases ip with
  | v4 a =>
    have hread := readV4?_text a stops_nil
    rw [List.append_nil] at hread
    simp only [Ip.text, ofText?, hread, List.isEmpty_nil, if_true]
  | v6 a =>
    have hnone := readV4?_textV6 a ends_nil
    have hread := readV6?_text a ends_nil (by rintro ⟨⟩)
    rw [List.append_nil] at hnone hread
    simp only [Ip.text, ofText?, hnone, hread, List.isEmpty_nil, if_true]

/-- The characters of texts of addresses: digits, dots and colons. -/
def IsTextChar (c : Char) : Prop := digitValue? 16 c ≠ none ∨ c = '.' ∨ c = ':'

instance (c : Char) : Decidable (IsTextChar c) := inferInstanceAs (Decidable (_ ∨ _))

/-- Groups are written in digits and colons. -/
theorem isTextChar_of_mem_joinGroups (h : c ∈ (IPv6.joinGroups gs).toList) : IsTextChar c := by
  cases gs with
  | nil => cases h
  | cons g gs =>
    rw [IPv6.toList_joinGroups_cons, List.mem_append, List.mem_flatMap] at h
    obtain h | ⟨g', -, h⟩ := h
    · exact .inl (digitValue?_of_mem (by decide) (by decide) h)
    · rcases List.mem_cons.mp h with rfl | h
      · exact .inr (.inr rfl)
      · exact .inl (digitValue?_of_mem (by decide) (by decide) h)

/-- An address of version 4 is written in digits and dots. -/
theorem isTextChar_of_mem_textV4 {a : IPv4} (h : c ∈ a.text.toList) : IsTextChar c := by
  obtain ⟨b₁, b₂, b₃, b₄, -, htext⟩ := a.exists_toList_text
  have hdigit (b : UInt8) (h : c ∈ Nat.toDigits 10 b.toNat) : IsTextChar c :=
    .inl (digitValue?_of_mem (by decide) (by decide) h)
  simp only [htext, List.mem_append, List.mem_cons] at h
  rcases h with h | rfl | h | rfl | h | rfl | h
  · exact hdigit b₁ h
  · exact .inr (.inl rfl)
  · exact hdigit b₂ h
  · exact .inr (.inl rfl)
  · exact hdigit b₃ h
  · exact .inr (.inl rfl)
  · exact hdigit b₄ h

/-- An address of version 6 is written in digits, colons, and dots where it has an old one in it. -/
theorem isTextChar_of_mem_textV6 {a : IPv6} (h : c ∈ a.text.toList) : IsTextChar c := by
  obtain ⟨v4, -, htext⟩ | ⟨front, back, n, -, -, htext⟩ | htext := a.text_forms
  · simp only [htext, List.mem_append, List.mem_cons] at h
    rcases h with rfl | rfl | h | rfl | h
    · exact .inr (.inr rfl)
    · exact .inr (.inr rfl)
    · exact .inl (digitValue?_of_mem (by decide) (by decide) h)
    · exact .inr (.inr rfl)
    · exact isTextChar_of_mem_textV4 h
  · simp only [htext, List.mem_append, List.mem_cons] at h
    rcases h with h | rfl | rfl | h
    · exact isTextChar_of_mem_joinGroups h
    · exact .inr (.inr rfl)
    · exact .inr (.inr rfl)
    · exact isTextChar_of_mem_joinGroups h
  · rw [htext] at h
    exact isTextChar_of_mem_joinGroups h

/-- **A text of an address has no other characters** than digits, dots and colons. -/
theorem isTextChar_of_mem_text {ip : Ip} (h : c ∈ ip.text.toList) : IsTextChar c := by
  cases ip with
  | v4 a => exact isTextChar_of_mem_textV4 h
  | v6 a => exact isTextChar_of_mem_textV6 h

end Ip

end LightPeer
