import Mathlib.Algebra.Ring.Int.Defs
import LightPeer.Proofs.Message.Commands
import LightPeer.Proofs.Record.Spelling

/-!
# The sum of the outputs

The outputs of a transaction are added up one after the other, each time in 64 bits.  There is a
sum exactly if every partial sum is in the range of 64 bits, and then it is the sum of the amounts.
The order of the amounts matters: they have a sign, and so a partial sum may leave the range and the
next one may come back to it.

Nothing limits the amounts that a peer sends.

* `Tx.totalOutput?_eq_some_iff` — when there is a sum, and which;
* `Tx.exists_decode` — every row of amounts is that of a transaction that is read.
-/

namespace LightPeer.Tx

open Wire

/-- A number in the range of signed words of 64 bits. -/
def InRange (n : Int) : Prop := -(2 ^ 63) ≤ n ∧ n < 2 ^ 63

/-- The amounts of the outputs, in order. -/
def amounts (t : Tx) : List Int := t.outputs.map fun o => o.value.toInt

/-- Every partial sum of the amounts is in range. -/
def Summable (t : Tx) : Prop := ∀ front, front <+: t.amounts → InRange front.sum

/-- The amounts of a transaction are those of its outputs, read as numbers with a sign. -/
theorem amounts_eq {t : Tx} {values : List Int64} (h : t.outputs.map TxOut.value = values) :
    t.amounts = values.map Int64.toInt := by
  rw [← h, List.map_map]
  rfl

theorem inRange_toInt (v : Int64) : InRange v.toInt := ⟨v.le_toInt, v.toInt_lt⟩

variable {start a b total : Int64} {vs : List Int64}

/-- Two amounts have a sum in 64 bits if it is in range. -/
theorem add?_eq_some_iff : add? a b = some total ↔ total.toInt = a.toInt + b.toInt := by
  rw [add?]
  constructor
  · intro hsum
    split at hsum
    · next hrange =>
      cases hsum
      exact Int64.toInt_ofInt_of_le hrange.1 hrange.2
    · cases hsum
  · intro htotal
    rw [← htotal, if_pos ⟨total.le_toInt, total.toInt_lt⟩, Int64.ofInt_toInt]

/-- **A running sum is the exact sum, and none of its steps leaves the range.** -/
theorem sumFrom?_eq_some_iff :
    sumFrom? start vs = some total ↔
      total.toInt = start.toInt + (vs.map Int64.toInt).sum ∧
        ∀ front, front <+: vs.map Int64.toInt → InRange (start.toInt + front.sum) := by
  induction vs generalizing start with
  | nil =>
    rw [sumFrom?, List.map_nil, List.sum_nil, Int.add_zero, Int64.toInt_inj]
    constructor
    · intro hstart
      cases hstart
      refine ⟨rfl, ?_⟩
      intro front hfront
      rw [List.prefix_nil.mp hfront, List.sum_nil, Int.add_zero]
      exact inRange_toInt total
    · intro htotal
      rw [htotal.1]
  | cons v vs ih =>
    rw [sumFrom?, Option.bind_eq_some_iff]
    simp only [add?_eq_some_iff, ih, List.map_cons, List.sum_cons]
    constructor
    · intro ⟨next, hnext, htotal, hsteps⟩
      refine ⟨by omega, ?_⟩
      intro front hfront
      rcases List.prefix_cons_iff.mp hfront with hnil | ⟨rest, hcons, hrest⟩
      · rw [hnil, List.sum_nil, Int.add_zero]
        exact inRange_toInt start
      · have hstep := hsteps rest hrest
        rw [hcons, List.sum_cons, ← Int.add_assoc, ← hnext]
        exact hstep
    · intro ⟨htotal, hsteps⟩
      -- The first step is in range, and so it is a word that the others start from.
      have hfirst := hsteps [v.toInt] (List.cons_prefix_cons.mpr ⟨rfl, List.nil_prefix⟩)
      rw [List.sum_singleton] at hfirst
      have hnext : (Int64.ofInt (start.toInt + v.toInt)).toInt = start.toInt + v.toInt :=
        Int64.toInt_ofInt_of_le hfirst.1 hfirst.2
      refine ⟨_, hnext, by omega, ?_⟩
      intro front hfront
      have hstep := hsteps (v.toInt :: front) (List.cons_prefix_cons.mpr ⟨rfl, hfront⟩)
      rw [List.sum_cons, ← Int.add_assoc] at hstep
      rw [hnext]
      exact hstep

/-- **There is a sum of the outputs if and only if every partial sum is in range, and then it is
exact.** -/
theorem totalOutput?_eq_some_iff {t : Tx} :
    t.totalOutput? = some total ↔ total.toInt = t.amounts.sum ∧ t.Summable := by
  have hzero : (0 : Int64).toInt = 0 := rfl
  rw [totalOutput?, sumFrom?_eq_some_iff, List.map_map, hzero]
  simp only [Int.zero_add]
  rfl

/-- **There is no sum exactly if some partial sum leaves the range**, and then it does not help that
a later one comes back to it. -/
theorem totalOutput?_eq_none_iff {t : Tx} : t.totalOutput? = none ↔ ¬ t.Summable := by
  constructor
  · intro hnone hsummable
    have hrange := hsummable t.amounts (List.prefix_refl _)
    have hsome := totalOutput?_eq_some_iff.mpr
      ⟨Int64.toInt_ofInt_of_le hrange.1 hrange.2, hsummable⟩
    rw [hnone] at hsome
    cases hsome
  · intro hnot
    cases htotal : t.totalOutput? with
    | none => rfl
    | some total => exact absurd (totalOutput?_eq_some_iff.mp htotal).2 hnot

/-- A transaction that pays amounts, to nobody. -/
def paying (amounts : List Int64) : TxBody := ⟨1, [], amounts.map fun v => ⟨v, []⟩, 0⟩

/-- Such a transaction can be written, unless it has more outputs than can be counted. -/
theorem paying_fits {amounts : List Int64} (h : amounts.length < 2 ^ 64) :
    (paying amounts).Fits := by
  refine ⟨Nat.two_pow_pos 64, nofun, ?_, ?_⟩
  · rw [paying, List.length_map]
    exact h
  · intro o ho
    obtain ⟨v, -, rfl⟩ := List.mem_map.mp ho
    exact Nat.two_pow_pos 64

/-- A transaction that was written is read as a message. -/
theorem decode_encode {t : TxBody} (h : t.Fits) :
    Message.decode "tx" t.encode = .ok (some (.tx (ofBody t))) :=
  Message.decode_of_parses rfl ((parses_encode .little h).map Message.tx)

/-- **Whatever the amounts are, there is a payload that has them**, and it is read. -/
theorem exists_decode (amounts : List Int64) (h : amounts.length < 2 ^ 64) :
    ∃ payload t, Message.decode "tx" payload = .ok (some (.tx t)) ∧
      t.outputs.map TxOut.value = amounts := by
  refine ⟨_, _, decode_encode (paying_fits h), ?_⟩
  rw [ofBody, paying, List.map_map]
  exact List.map_id amounts

end LightPeer.Tx
