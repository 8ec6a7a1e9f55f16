import Mathlib.Data.List.Basic
import LightPeer.Proofs.Address.Checksum

/-!
# Which texts are Bech32

A text is taken apart exactly if it spells something: it is the written form of a readable part, of
values and of a variant, in letters of one case.  The separator is the last `1`, as no symbol is a
`1`.  So each text spells one thing at most.

* `toNat_toLower` — all about letters of both cases;
* `split?_eq_some_iff`, `mapM_symbolValue?_eq_some_iff` — the parts of a text;
* `decode?_eq_some_iff` — what a text is taken apart into;
* `spells_written` — the written form is a spelling.
-/

namespace LightPeer

namespace Bech32

variable {c : Char} {cs readable data : List Char} {v : Nat} {values : List Nat}

/-- A capital of the alphabet is thirty-two places in front of its small letter, and no other
character changes. -/
theorem toNat_toLower (c : Char) :
    c.toLower.toNat = if 65 ≤ c.toNat ∧ c.toNat ≤ 90 then c.toNat + 32 else c.toNat := by
  have hupper : (c.val ≥ 'A'.val ∧ c.val ≤ 'Z'.val) ↔ (65 ≤ c.toNat ∧ c.toNat ≤ 90) := Iff.rfl
  by_cases h : 65 ≤ c.toNat ∧ c.toNat ≤ 90
  · have hlower : c.toLower.val = c.val + ('a'.val - 'A'.val) :=
      congrArg Char.val (dif_pos (hupper.mpr h))
    have hsum : (c.val + ('a'.val - 'A'.val)).toNat = c.toNat + 32 := by
      rw [UInt32.toNat_add]
      show (c.toNat + 32) % 2 ^ 32 = _
      omega
    rw [if_pos h, ← hsum, ← hlower]
    rfl
  · have hlower : c.toLower = c := dif_neg (mt hupper.mp h)
    rw [if_neg h, hlower]

/-- The capitals are those of the alphabet. -/
theorem isUpper_iff : c.isUpper = true ↔ 65 ≤ c.toNat ∧ c.toNat ≤ 90 :=
  decide_eq_true_iff.trans Iff.rfl

/-- What is in lower case has no letters of the other case. -/
theorem isUpper_of_toLower (h : c.toLower = c) : c.isUpper = false := by
  rw [Bool.eq_false_iff, ne_eq, isUpper_iff]
  intro hupper
  have hlower := toNat_toLower c
  rw [if_pos hupper, h] at hlower
  omega

/-- A sign that is no letter is not changed, and nothing is changed into it. -/
theorem toLower_eq_one_iff : c.toLower = '1' ↔ c = '1' := by
  have hone : '1'.toNat = 49 := rfl
  rw [← Char.toNat_inj, ← Char.toNat_inj, toNat_toLower, hone]
  split <;> omega

/-- Printable signs stay printable. -/
theorem printable_toLower (c : Char) :
    33 ≤ c.toLower.toNat ∧ c.toLower.toNat ≤ 126 ↔ 33 ≤ c.toNat ∧ c.toNat ≤ 126 := by
  rw [toNat_toLower]
  split <;> omega

/-- **A text is cut at its last separator**, so that the part in front may have separators of its
own. -/
theorem split?_eq_some_iff :
    split? cs = some (readable, data) ↔ cs = readable ++ '1' :: data ∧ '1' ∉ data := by
  rw [split?]
  constructor
  · intro hsplit
    have hback := List.takeWhile_append_dropWhile (p := (· ≠ '1')) (l := cs.reverse)
    have hdata : '1' ∉ cs.reverse.takeWhile (· ≠ '1') := by
      intro hmem
      have hother := List.all_eq_true.mp (List.all_takeWhile (l := cs.reverse)) _ hmem
      simp at hother
    have hhead := List.head?_dropWhile_not (· ≠ '1') cs.reverse
    generalize cs.reverse.takeWhile (· ≠ '1') = back at hsplit hback hdata
    rw [← hback, List.drop_left] at hsplit
    generalize cs.reverse.dropWhile (· ≠ '1') = front at hsplit hback hhead
    cases front with
    | nil => cases hsplit
    | cons separator front =>
      cases hsplit
      have hone : separator = '1' := by simpa using hhead
      constructor
      · rw [← List.reverse_reverse cs, ← hback, hone, List.reverse_append, List.reverse_cons,
          List.append_assoc]
        rfl
      · rw [List.mem_reverse]
        exact hdata
  · intro ⟨hcs, hdata⟩
    have hreverse : cs.reverse = data.reverse ++ '1' :: readable.reverse := by
      rw [hcs, List.reverse_append, List.reverse_cons, List.append_assoc]
      rfl
    have hothers : ∀ c ∈ data.reverse, decide (c ≠ '1') = true := by
      intro c hc
      refine decide_eq_true fun hone => hdata ?_
      rw [← hone]
      exact List.mem_reverse.mp hc
    have hback : cs.reverse.takeWhile (· ≠ '1') = data.reverse := by
      rw [hreverse, List.takeWhile_append_of_pos hothers]
      simp
    rw [hback, hreverse, List.drop_left]
    simp

theorem symbolValue?_symbolOf : ∀ v < 32, symbolValue? (symbolOf v) = some v := by decide

/-- Symbols are small letters and digits, and so a text in small letters is read as it stands. -/
theorem toLower_symbolOf : ∀ v < 32, (symbolOf v).toLower = symbolOf v := by decide

/-- The character that divides an address is no symbol, and so the last one of a text is the one
that divides it. -/
theorem symbolOf_ne_one : ∀ v < 32, symbolOf v ≠ '1' := by decide

/-- A symbol has the value of which it is the symbol. -/
theorem symbolValue?_eq_some_iff :
    symbolValue? c = some v ↔ v < 32 ∧ c.toLower = symbolOf v := by
  constructor
  · intro hvalue
    rw [symbolValue?, List.idxOf?_eq_some_iff] at hvalue
    obtain ⟨hlt, hsymbol, -⟩ := hvalue
    refine ⟨hlt, ?_⟩
    rw [← hsymbol, symbolOf, List.getD_eq_getElem?_getD, List.getElem?_eq_getElem hlt,
      Option.getD_some]
  · intro ⟨hlt, hsymbol⟩
    have hvalue := symbolValue?_symbolOf v hlt
    rw [symbolValue?, toLower_symbolOf v hlt] at hvalue
    rw [symbolValue?, hsymbol, hvalue]

/-- So it is with a row of symbols. -/
theorem mapM_symbolValue?_eq_some_iff :
    data.mapM symbolValue? = some values ↔
      (∀ v ∈ values, v < 32) ∧ data.map Char.toLower = values.map symbolOf := by
  induction data generalizing values with
  | nil =>
    rw [List.mapM_nil, List.map_nil]
    constructor
    · intro hnone
      cases hnone
      exact ⟨nofun, rfl⟩
    · intro ⟨_, hnone⟩
      rw [List.map_eq_nil_iff.mp hnone.symm]
      rfl
  | cons c data ih =>
    rw [List.mapM_cons, List.map_cons]
    simp only [bind, Option.bind_eq_some_iff, ih, symbolValue?_eq_some_iff]
    constructor
    · intro ⟨v, ⟨hv, hsymbol⟩, rest, ⟨hrest, hsymbols⟩, hvalues⟩
      cases hvalues
      exact ⟨List.forall_mem_cons.mpr ⟨hv, hrest⟩, by rw [hsymbol, hsymbols, List.map_cons]⟩
    · intro ⟨hvalues, hsymbols⟩
      obtain ⟨v, rest, rfl, hsymbol, hrest⟩ := List.map_eq_cons_iff.mp hsymbols.symm
      obtain ⟨hv, hvs⟩ := List.forall_mem_cons.mp hvalues
      exact ⟨v, ⟨hv, hsymbol.symm⟩, rest, ⟨hvs, hrest.symm⟩, rfl⟩

/-- A text spells what it may be taken apart into: it is its written form, in letters of one
case. -/
structure Spells (text : String) (d : Decoded) : Prop where
  readable : isReadable d.readable = true
  values : ∀ v ∈ d.values, v < 32
  oneCase : isMixedCase text.toList = false
  lower : text.toList.map Char.toLower = d.written

/-- Letters of either case have the same places in the readable part. -/
theorem isReadable_map_toLower (readable : List Char) :
    isReadable (readable.map Char.toLower) = isReadable readable := by
  have hall : ((readable.map Char.toLower).all fun c => 33 ≤ c.toNat && c.toNat ≤ 126) =
      readable.all fun c => 33 ≤ c.toNat && c.toNat ≤ 126 := by
    rw [List.all_map]
    refine congrArg _ (funext fun c => ?_)
    rw [Bool.eq_iff_iff]
    simpa using printable_toLower c
  rw [isReadable, isReadable, List.length_map, hall]

/-- The separator is of no case, so whether cases are mixed depends on the two parts. -/
theorem isMixedCase_separated (readable data : List Char) :
    isMixedCase (readable ++ '1' :: data) = isMixedCase (readable ++ data) := by
  have hlower : Char.isLower '1' = false := rfl
  have hupper : Char.isUpper '1' = false := rfl
  rw [isMixedCase, isMixedCase, List.any_append, List.any_append, List.any_append, List.any_append,
    List.any_cons, List.any_cons, hlower, hupper, Bool.false_or, Bool.false_or]

/-- A checksum is made of values that symbols stand for. -/
theorem forall_mem_checksumOf (variant : Variant) (readable : List Char) (values : List Nat) :
    ∀ v ∈ checksumOf variant readable values, v < 32 := fun _ => lt_of_mem_groups

/-- Values stay in range with their checksum, so each of them has a symbol. -/
theorem Spells.lt_of_mem {text : String} {d : Decoded} (h : Spells text d) :
    ∀ v ∈ d.values ++ checksumOf d.variant d.readable d.values, v < 32 := by
  intro v hv
  rcases List.mem_append.mp hv with hvalue | hcheck
  · exact h.values v hvalue
  · exact forall_mem_checksumOf _ _ _ v hcheck

/-- The character that divides an address does not come up among symbols. -/
theorem one_notMem_map_symbolOf (h : ∀ v ∈ values, v < 32) : '1' ∉ values.map symbolOf := by
  intro hone
  obtain ⟨v, hv, hsymbol⟩ := List.mem_map.mp hone
  exact symbolOf_ne_one v (h v hv) hsymbol

/-- The symbols of values end in those of their checksum. -/
theorem exists_checksum {variant : Variant} (hlength : 6 ≤ values.length)
    (hvalues : ∀ v ∈ values, v < 32) (hvariant : variant? readable values = some variant) :
    values = values.take (values.length - 6) ++
      checksumOf variant readable (values.take (values.length - 6)) := by
  have hsplit := List.take_append_drop (values.length - 6) values
  have hlast : (values.drop (values.length - 6)).length = 6 := by
    rw [List.length_drop]
    omega
  have hcheck : ∀ v ∈ values.drop (values.length - 6), v < 32 :=
    fun v hv => hvalues v (List.mem_of_mem_drop hv)
  rw [← hsplit, variant?_eq_some_iff hlast hcheck] at hvariant
  rw [← hvariant, hsplit]

/-- What a text is taken apart into, it spells. -/
theorem spells_of_decode? {text : String} {d : Decoded} (hdecode : decode? text = some d) :
    Spells text d := by
  rw [decode?] at hdecode
  split at hdecode
  · cases hdecode
  · next readable data hsplit =>
    obtain ⟨htext, -⟩ := split?_eq_some_iff.mp hsplit
    split at hdecode
    · cases hdecode
    · next hchecks =>
      split at hdecode
      · cases hdecode
      · next values hsymbols =>
        obtain ⟨hvalues, hlower⟩ := mapM_symbolValue?_eq_some_iff.mp hsymbols
        split at hdecode
        · cases hdecode
        · next hlength =>
          dsimp only at hdecode
          split at hdecode
          · cases hdecode
          · next variant hvariant =>
            cases hdecode
            have hended := exists_checksum (Nat.le_of_not_lt hlength) hvalues hvariant
            have hboth : isReadable readable = true ∧ isMixedCase (readable ++ data) = false := by
              simpa using hchecks
            refine ⟨?_, ?_, ?_, ?_⟩
            · rw [isReadable_map_toLower]
              exact hboth.1
            · exact fun v hv => hvalues v (List.mem_of_mem_take hv)
            · rw [htext, isMixedCase_separated]
              exact hboth.2
            · rw [htext, List.map_append, List.map_cons, hlower, Decoded.written, ← hended]
              rfl

/-- A text is taken apart into what it spells. -/
theorem Spells.decode?_eq {text : String} {d : Decoded} (hspells : Spells text d) :
    decode? text = some d := by
  obtain ⟨readable, rest, htext, hreadable, hrest⟩ := List.map_eq_append_iff.mp hspells.lower
  obtain ⟨separator, data, rfl, hseparator, hdata⟩ := List.map_eq_cons_iff.mp hrest
  cases toLower_eq_one_iff.mp hseparator
  have hall := hspells.lt_of_mem
  have hone : '1' ∉ data := by
    intro hone
    refine one_notMem_map_symbolOf hall ?_
    rw [← hdata]
    exact List.mem_map.mpr ⟨'1', hone, rfl⟩
  have hsplit := split?_eq_some_iff.mpr ⟨htext, hone⟩
  have hsymbols := mapM_symbolValue?_eq_some_iff.mpr ⟨hall, hdata⟩
  have hlegible : isReadable readable = true := by
    rw [← isReadable_map_toLower, hreadable]
    exact hspells.readable
  have hcase : isMixedCase (readable ++ data) = false := by
    rw [← isMixedCase_separated, ← htext]
    exact hspells.oneCase
  have hsix : (checksumOf d.variant d.readable d.values).length = 6 := length_groups ..
  have hvariant : variant? d.readable (d.values ++ checksumOf d.variant d.readable d.values) =
      some d.variant := (variant?_eq_some_iff hsix (forall_mem_checksumOf _ _ _)).mpr rfl
  rw [decode?, hsplit]
  simp only [hlegible, hcase, hsymbols, List.length_append, hsix, Nat.add_sub_cancel,
    List.take_left, hreadable]
  simp [hvariant]

/-- **A text is taken apart into what it spells**, and into nothing else. -/
theorem decode?_eq_some_iff {text : String} {d : Decoded} :
    decode? text = some d ↔ Spells text d :=
  ⟨spells_of_decode?, Spells.decode?_eq⟩

/-- A text without capitals is in one case, and is not refused for mixing them. -/
theorem isMixedCase_of_lower (h : cs.map Char.toLower = cs) : isMixedCase cs = false := by
  have hlower : ∀ c ∈ cs, c.toLower = c := by
    rw [← List.map_inj_left, h]
    exact (List.map_id cs).symm
  have hupper : cs.any Char.isUpper = false := by
    rw [List.any_eq_false]
    intro c hc
    rw [isUpper_of_toLower (hlower c hc)]
    decide
  rw [isMixedCase, hupper, Bool.and_false]

/-- Symbols are already in the case in which addresses are written. -/
theorem map_toLower_symbols (h : ∀ v ∈ values, v < 32) :
    (values.map symbolOf).map Char.toLower = values.map symbolOf := by
  rw [List.map_map]
  exact List.map_congr_left fun v hv => toLower_symbolOf v (h v hv)

/-- **What is written is spelled**, if the readable part is in lower case. -/
theorem spells_written {d : Decoded} (hreadable : isReadable d.readable = true)
    (hlower : d.readable.map Char.toLower = d.readable) (hvalues : ∀ v ∈ d.values, v < 32) :
    Spells (String.ofList d.written) d := by
  have hwritten : d.written.map Char.toLower = d.written := by
    rw [Decoded.written, List.map_append, List.map_cons, hlower, List.map_append, List.map_append,
      map_toLower_symbols hvalues, map_toLower_symbols (forall_mem_checksumOf _ _ _)]
    rfl
  refine ⟨hreadable, hvalues, ?_, ?_⟩
  · rw [String.toList_ofList]
    exact isMixedCase_of_lower hwritten
  · rw [String.toList_ofList]
    exact hwritten

end Bech32

end LightPeer
