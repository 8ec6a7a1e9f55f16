import LightPeer.Proofs.Listener.Removal
import Mathlib.Data.List.Nodup

/-!
# Handles mean one listener

All boards and all connections take their handles from one supply, which counts on.  Handles repeat
only when the count has come round, and until then a handle stands for one listener: it is given
out once, stands in one registry at most, and comes back into none that it has left.

This is what makes removing by handle exact.  A connection looks for a handle among the listeners
of one kind after the other, and it would remove the wrong one if two kinds could share a handle.

* `IdSupply.handle`, `IdSupply.handle_inj` — the handles in the order in which they are given out;
* `World`, `World.step` — registries that share a supply, and what happens to them;
* `World.step_cases` — an act registers one listener, or takes handles away;
* `World.mem_ids_play` — a handle stays in use until its removal is asked for;
* `World.Orderly`, `World.Orderly.play` — what holds after any acts;
* `World.handles_unambiguous` — handles mean one listener.
-/

namespace LightPeer

namespace IdSupply

variable {s : IdSupply} {i j n : Nat}

/-- The handle that is given out when `i` others have been given out before. -/
def handle (s : IdSupply) (i : Nat) : ListenerId := ⟨s.next + UInt64.ofNat i⟩

/-- The supply when `n` handles have been given out. -/
def without (s : IdSupply) (n : Nat) : IdSupply := ⟨s.next + UInt64.ofNat n⟩

/-- No handle has been given out of a supply that has not been touched. -/
theorem without_zero (s : IdSupply) : s.without 0 = s := by
  rw [without]
  simp

/-- The handles are given out in order, whoever asks for them. -/
theorem take_without (s : IdSupply) (n : Nat) :
    (s.without n).take = (s.handle n, s.without (n + 1)) := by
  rw [take, handle, without, without, UInt64.add_assoc, UInt64.ofNat_add]
  rfl

/-- **Handles do not repeat** before the count comes round. -/
theorem handle_inj (hi : i < 2 ^ 64) (hj : j < 2 ^ 64) (h : s.handle i = s.handle j) : i = j := by
  rw [handle, handle, ListenerId.mk.injEq, UInt64.add_right_inj] at h
  have hnat := congrArg UInt64.toNat h
  rw [UInt64.toNat_ofNat_of_lt' hi, UInt64.toNat_ofNat_of_lt' hj] at hnat
  exact hnat

end IdSupply

/-- Where a listener is registered: on a board, or at a connection for one kind of events. -/
inductive Place
  | board (n : Nat)
  | connection (n : Nat) (kind : ListenerKind)
  deriving DecidableEq

/-- Boards and connections by their numbers, and the handles that none of them has given out. -/
structure World (ε : Nat → Type) where
  supply : IdSupply
  board : (n : Nat) → Board (ε n)
  connection : Nat → Connection

namespace World

variable {ε : Nat → Type}

/-- Nobody has registered yet. -/
def new (supply : IdSupply) (config : Nat → Config) (dice : Nat → Dice) : World ε where
  supply
  board _ := .empty supply
  connection n := .new (config n) supply (dice n)

/-- What happens to the registries. -/
inductive Act (ε : Nat → Type)
  | add (n : Nat) (listener : ε n → Script (ε n))
  | remove (n : Nat) (id : ListenerId)
  | listen (n : Nat) (kind : ListenerKind) (listener : Listener kind)
  | removeListener (n : Nat) (id : ListenerId)

/-- Whether a listener is registered. -/
def Act.registers : Act ε → Bool
  | .add .. => true
  | .remove .. => false
  | .listen .. => true
  | .removeListener .. => false

/-- Where an act registers a listener. -/
def Act.place? : Act ε → Option Place
  | .add n _ => some (.board n)
  | .listen n kind _ => some (.connection n kind)
  | .remove .. => none
  | .removeListener .. => none

/-- Whether an act asks for a handle to be taken away from a place.  A connection is asked without
regard to the kind. -/
def Act.Takes (place : Place) (id : ListenerId) : Act ε → Prop
  | .remove n gone => gone = id ∧ place = .board n
  | .removeListener n gone => gone = id ∧ ∃ kind, place = .connection n kind
  | .add .. => False
  | .listen .. => False

/-- How many listeners are registered. -/
def registrations (acts : List (Act ε)) : Nat := acts.countP Act.registers

/-- What is answered: a handle, or whether one was found. -/
inductive Answer
  | handle (id : ListenerId)
  | found (found : Bool)

/-- The handles that are given out. -/
def handles (answers : List Answer) : List ListenerId :=
  answers.filterMap fun
    | .handle id => some id
    | .found _ => none

/-- A board with the common supply in its hands. -/
def boardNow (w : World ε) (n : Nat) : Board (ε n) := { w.board n with supply := w.supply }

/-- A connection with the common supply in its hands. -/
def connectionNow (w : World ε) (n : Nat) : Connection := { w.connection n with supply := w.supply }

/-- A board has been changed, and hands the supply back. -/
def withBoard (w : World ε) (n : Nat) (b : Board (ε n)) : World ε :=
  { w with supply := b.supply, board := Function.update w.board n b }

/-- A connection has been changed, and hands the supply back. -/
def withConnection (w : World ε) (n : Nat) (c : Connection) : World ε :=
  { w with supply := c.supply, connection := Function.update w.connection n c }

/-- One act, and the answer to it. -/
def step (w : World ε) : Act ε → Answer × World ε
  | .add n listener =>
    let (id, b) := (w.boardNow n).add listener
    (.handle id, w.withBoard n b)
  | .remove n id =>
    let (found, b) := (w.boardNow n).remove id
    (.found found, w.withBoard n b)
  | .listen n kind listener =>
    let (id, c) := (w.connectionNow n).listen kind listener
    (.handle id, w.withConnection n c)
  | .removeListener n id =>
    let (found, c) := (w.connectionNow n).removeListener id
    (.found found, w.withConnection n c)

/-- One act after another, and the answers to them. -/
def play : List (Act ε) → World ε → List Answer × World ε
  | [], w => ([], w)
  | act :: acts, w =>
    let (answer, w) := w.step act
    let (answers, w) := play acts w
    (answer :: answers, w)

/-- The handles that are in use at a place. -/
def ids (w : World ε) : Place → List ListenerId
  | .board n => (w.board n).registry.ids
  | .connection n kind => ((w.connection n).listeners.ofKind kind).ids

variable {w : World ε} {place other : Place} {n : Nat}

/-- On a board that has been changed the handles are those of its registry now. -/
theorem ids_withBoard (w : World ε) (n : Nat) (b : Board (ε n)) :
    (w.withBoard n b).ids (.board n) = b.registry.ids := by
  show (Function.update w.board n b n).registry.ids = _
  rw [Function.update_self]

/-- At all other places they are what they were. -/
theorem ids_withBoard_of_ne (w : World ε) (b : Board (ε n)) (h : place ≠ .board n) :
    (w.withBoard n b).ids place = w.ids place := by
  cases place with
  | board m =>
    have hne : m ≠ n := fun hsame => h (congrArg Place.board hsame)
    show (Function.update w.board n b m).registry.ids = _
    rw [Function.update_of_ne hne]
    rfl
  | connection m kind => rfl

/-- At a connection that has been changed they are those of its registry for the kind. -/
theorem ids_withConnection (w : World ε) (n : Nat) (c : Connection) (kind : ListenerKind) :
    (w.withConnection n c).ids (.connection n kind) = (c.listeners.ofKind kind).ids := by
  show ((Function.update w.connection n c n).listeners.ofKind kind).ids = _
  rw [Function.update_self]

/-- At other connections, and on boards, they are what they were. -/
theorem ids_withConnection_of_ne (w : World ε) (c : Connection)
    (h : ∀ kind, place ≠ .connection n kind) :
    (w.withConnection n c).ids place = w.ids place := by
  cases place with
  | board m => rfl
  | connection m kind =>
    have hne : m ≠ n := fun hsame => h kind (congrArg (Place.connection · kind) hsame)
    show ((Function.update w.connection n c m).listeners.ofKind kind).ids = _
    rw [Function.update_of_ne hne]
    rfl

/-- A listener has been registered at a place, under the next handle. -/
structure Registered (place : Place) (w : World ε) (result : Answer × World ε) : Prop where
  answer : result.1 = .handle w.supply.take.1
  supply : result.2.supply = w.supply.take.2
  there : result.2.ids place = w.ids place ++ [w.supply.take.1]
  elsewhere : ∀ other, other ≠ place → result.2.ids other = w.ids other

/-- Handles have been taken away at most. -/
structure Dropped (w : World ε) (result : Answer × World ε) : Prop where
  answer : ∃ found, result.1 = .found found
  supply : result.2.supply = w.supply
  fewer : ∀ place, (result.2.ids place).Sublist (w.ids place)

/-- An act that registers a listener registers it where it says. -/
theorem step_registered {act : Act ε} (h : act.place? = some place) :
    Registered place w (w.step act) := by
  cases act with
  | add n listener =>
    cases h
    refine ⟨rfl, rfl, ?_, ?_⟩
    · exact (w.ids_withBoard n _).trans (Registry.ids_add ..)
    · intro other hother
      exact w.ids_withBoard_of_ne _ hother
  | listen n kind listener =>
    cases h
    let heard := ((w.connectionNow n).listen kind listener).2
    have hadded := Listeners.ofKind_add (w.connection n).listeners w.supply.take.1 kind listener
    refine ⟨rfl, rfl, ?_, ?_⟩
    · have hids := w.ids_withConnection n heard kind
      rw [show heard.listeners.ofKind kind = _ from hadded, Registry.ids_add] at hids
      exact hids
    · intro other hother
      by_cases hsame : ∃ otherKind, other = .connection n otherKind
      · obtain ⟨otherKind, rfl⟩ := hsame
        have hne : otherKind ≠ kind := fun hkind => hother (hkind ▸ rfl)
        have hids := w.ids_withConnection n heard otherKind
        rw [show heard.listeners.ofKind otherKind = _ from
          Listeners.ofKind_add_of_ne _ _ listener hne] at hids
        exact hids
      · exact w.ids_withConnection_of_ne heard (not_exists.mp hsame)
  | remove n id => cases h
  | removeListener n id => cases h

/-- **What an act can do**: it registers one listener, or takes handles away at most. -/
theorem step_cases (w : World ε) (act : Act ε) :
    act.registers = true ∧ (∃ place, Registered place w (w.step act)) ∨
      act.registers = false ∧ Dropped w (w.step act) := by
  cases act with
  | add n listener => exact .inl ⟨rfl, _, step_registered rfl⟩
  | listen n kind listener => exact .inl ⟨rfl, _, step_registered rfl⟩
  | remove n id =>
    refine .inr ⟨rfl, ⟨_, rfl⟩, rfl, ?_⟩
    intro place
    by_cases hplace : place = .board n
    · subst hplace
      have hids := w.ids_withBoard n ((w.boardNow n).remove id).2
      exact hids ▸ Registry.ids_remove_sublist ..
    · have hids := w.ids_withBoard_of_ne ((w.boardNow n).remove id).2 hplace
      exact hids ▸ List.Sublist.refl _
  | removeListener n id =>
    let left := ((w.connectionNow n).removeListener id).2
    refine .inr ⟨rfl, ⟨_, rfl⟩, rfl, ?_⟩
    intro place
    by_cases hsame : ∃ kind, place = .connection n kind
    · obtain ⟨kind, rfl⟩ := hsame
      have hids := w.ids_withConnection n left kind
      exact hids ▸ Listeners.ids_remove_sublist (w.connection n).listeners id kind
    · have hids := w.ids_withConnection_of_ne left (not_exists.mp hsame)
      exact hids ▸ List.Sublist.refl _

/-- A handle stays where it is, unless an act asks for it to be taken away from there. -/
theorem mem_ids_step {act : Act ε} {id : ListenerId} (hid : id ∈ w.ids place)
    (hkeeps : ¬ act.Takes place id) : id ∈ (w.step act).2.ids place := by
  have hregistered {own : Place} (h : act.place? = some own) : id ∈ (w.step act).2.ids place := by
    have hstep := step_registered (w := w) h
    by_cases hplace : place = own
    · subst hplace
      rw [hstep.there]
      exact List.mem_append_left _ hid
    · rw [hstep.elsewhere place hplace]
      exact hid
  cases act with
  | add n listener => exact hregistered rfl
  | listen n kind listener => exact hregistered rfl
  | remove n gone =>
    by_cases hplace : place = .board n
    · subst hplace
      have hne : id ≠ gone := fun hsame => hkeeps ⟨hsame.symm, rfl⟩
      have hids := w.ids_withBoard n ((w.boardNow n).remove gone).2
      exact hids ▸ Registry.mem_ids_remove hid hne
    · have hids := w.ids_withBoard_of_ne ((w.boardNow n).remove gone).2 hplace
      exact hids ▸ hid
  | removeListener n gone =>
    let left := ((w.connectionNow n).removeListener gone).2
    by_cases hsame : ∃ kind, place = .connection n kind
    · obtain ⟨kind, rfl⟩ := hsame
      have hne : id ≠ gone := fun hgone => hkeeps ⟨hgone.symm, kind, rfl⟩
      have hids := w.ids_withConnection n left kind
      exact hids ▸ Listeners.mem_ids_remove hid hne
    · have hids := w.ids_withConnection_of_ne left (not_exists.mp hsame)
      exact hids ▸ hid

/-- What holds when `n` handles of `s` have been given out: only these are in use, each at one place
at most, and once. -/
structure Orderly (s : IdSupply) (n : Nat) (w : World ε) : Prop where
  supply : w.supply = s.without n
  given : ∀ place, ∀ id ∈ w.ids place, ∃ i < n, s.handle i = id
  once : ∀ place, (w.ids place).Nodup
  apart : ∀ place other, other ≠ place → ∀ id ∈ w.ids place, id ∉ w.ids other

variable {s : IdSupply} {id : ListenerId} {result : Answer × World ε} {act : Act ε}
  {acts : List (Act ε)}

/-- Nothing has been given out and nothing is in use at the beginning. -/
theorem new_orderly (s : IdSupply) (config : Nat → Config) (dice : Nat → Dice) :
    (new s config dice : World ε).Orderly s 0 := by
  have hnone (place : Place) : (new s config dice : World ε).ids place = [] := by
    rcases place with n | ⟨n, _ | _ | _⟩ <;> rfl
  refine ⟨s.without_zero.symm, ?_, ?_, ?_⟩
  · intro place id hid
    rw [hnone] at hid
    cases hid
  · intro place
    rw [hnone]
    exact List.nodup_nil
  · intro place other _ id hid
    rw [hnone] at hid
    cases hid

namespace Orderly

/-- The next handle is nowhere in use yet, at whatever place it is going to be. -/
theorem fresh (h : w.Orderly s n) (hn : n < 2 ^ 64) (place : Place) :
    s.handle n ∉ w.ids place := by
  intro hid
  obtain ⟨i, hi, hsame⟩ := h.given place _ hid
  exact Nat.ne_of_lt hi (IdSupply.handle_inj (Nat.lt_trans hi hn) hn hsame)

/-- The next handle is the one whose number is that of the handles that have been given out. -/
theorem take_supply (h : w.Orderly s n) : w.supply.take = (s.handle n, s.without (n + 1)) := by
  rw [h.supply, IdSupply.take_without]

/-- A registration leaves order, with one more handle that has been given out. -/
theorem registered (h : w.Orderly s n) (hn : n < 2 ^ 64)
    (hresult : Registered place w result) : result.2.Orderly s (n + 1) := by
  obtain ⟨-, hsupply, hthere, helsewhere⟩ := hresult
  rw [h.take_supply] at hsupply hthere
  have hfresh := h.fresh hn
  have hids (other : Place) : ∀ id ∈ result.2.ids other,
      id ∈ w.ids other ∨ id = s.handle n ∧ other = place := by
    intro id hid
    by_cases hother : other = place
    · subst hother
      rw [hthere, List.mem_append, List.mem_singleton] at hid
      exact hid.imp_right fun hlast => ⟨hlast, rfl⟩
    · exact .inl (helsewhere other hother ▸ hid)
  refine ⟨hsupply, ?_, ?_, ?_⟩
  · intro other id hid
    rcases hids other id hid with hold | ⟨rfl, -⟩
    · obtain ⟨i, hi, hsame⟩ := h.given other id hold
      exact ⟨i, Nat.lt_succ_of_lt hi, hsame⟩
    · exact ⟨n, Nat.lt_succ_self n, rfl⟩
  · intro other
    by_cases hother : other = place
    · subst hother
      rw [hthere, ← List.concat_eq_append, List.nodup_concat]
      exact ⟨hfresh other, h.once other⟩
    · rw [helsewhere other hother]
      exact h.once other
  · intro first second hne id hid hid'
    rcases hids first id hid with hold | ⟨hlast, hfirst⟩ <;>
      rcases hids second id hid' with hold' | ⟨hlast', hsecond⟩
    · exact h.apart first second hne id hold hold'
    · exact hfresh first (hlast' ▸ hold)
    · exact hfresh second (hlast ▸ hold')
    · exact hne (hsecond.trans hfirst.symm)

/-- Taking handles away leaves order, and none of them is given out again. -/
theorem dropped (h : w.Orderly s n) (hresult : Dropped w result) : result.2.Orderly s n where
  supply := hresult.supply.trans h.supply
  given place id hid := h.given place id ((hresult.fewer place).subset hid)
  once place := (h.once place).sublist (hresult.fewer place)
  apart place other hne id hid hid' := h.apart place other hne id
    ((hresult.fewer place).subset hid) ((hresult.fewer other).subset hid')

end Orderly

/-- An act that registers counts as one, wherever it does. -/
theorem registrations_cons (act : Act ε) (acts : List (Act ε)) :
    registrations (act :: acts) = registrations acts + if act.registers then 1 else 0 := by
  rw [registrations, List.countP_cons]
  rfl

/-- Registrations before and after any moment add up. -/
theorem registrations_append (before after : List (Act ε)) :
    registrations (before ++ after) = registrations before + registrations after :=
  List.countP_append

/-- Acts can be taken in two parts, the second one of which begins where the first has ended. -/
theorem play_append (before after : List (Act ε)) (w : World ε) :
    (play (before ++ after) w).2 = (play after (play before w).2).2 := by
  induction before generalizing w with
  | nil => rfl
  | cons act before ih => exact ih (w.step act).2

/-- A handle stays where it is as long as no act asks for it to be taken away from there. -/
theorem mem_ids_play {id : ListenerId} (hid : id ∈ w.ids place)
    (hkeeps : ∀ act ∈ acts, ¬ act.Takes place id) : id ∈ (World.play acts w).2.ids place := by
  induction acts generalizing w with
  | nil => exact hid
  | cons act acts ih =>
    obtain ⟨hact, hacts⟩ := List.forall_mem_cons.mp hkeeps
    exact ih (mem_ids_step hid hact) hacts

/-- What any acts have come to: the handles were given out in order, and none that was given out
before has come to a place where it was not. -/
structure Played (s : IdSupply) (n : Nat) (acts : List (Act ε)) (w : World ε)
    (result : List Answer × World ε) : Prop where
  orderly : result.2.Orderly s (n + registrations acts)
  answers : handles result.1 = (List.range' n (registrations acts)).map s.handle
  gone : ∀ i < n, ∀ place, s.handle i ∉ w.ids place → s.handle i ∉ result.2.ids place

/-- **Any acts keep order**, as long as the count does not come round. -/
theorem Orderly.play (h : w.Orderly s n) (acts : List (Act ε))
    (hfew : n + registrations acts ≤ 2 ^ 64) :
    Played s n acts w (World.play acts w) := by
  induction acts generalizing w n with
  | nil => exact ⟨h, rfl, fun _ _ _ hnot => hnot⟩
  | cons act acts ih =>
    rw [registrations_cons] at hfew
    show Played s n (act :: acts) w
      ((w.step act).1 :: (World.play acts (w.step act).2).1, (World.play acts (w.step act).2).2)
    rcases w.step_cases act with ⟨hact, place, hstep⟩ | ⟨hact, hstep⟩
    · rw [if_pos hact] at hfew
      have hn : n < 2 ^ 64 := by omega
      obtain ⟨horderly, hanswers, hgone⟩ := ih (h.registered hn hstep) (by omega)
      have hcount : registrations (act :: acts) = registrations acts + 1 := by
        rw [registrations_cons, if_pos hact]
      refine ⟨?_, ?_, ?_⟩
      · rw [hcount, Nat.add_comm (registrations acts), ← Nat.add_assoc]
        exact horderly
      · rw [hcount, List.range'_succ, List.map_cons, ← hanswers, handles, List.filterMap_cons,
          hstep.answer, h.take_supply]
        rfl
      · intro i hi other hnot
        refine hgone i (Nat.lt_succ_of_lt hi) other ?_
        by_cases hother : other = place
        · subst hother
          rw [hstep.there, h.take_supply, List.mem_append, List.mem_singleton]
          rintro (hold | hlast)
          · exact hnot hold
          · exact Nat.ne_of_lt hi (IdSupply.handle_inj (Nat.lt_trans hi hn) hn hlast)
        · rw [hstep.elsewhere other hother]
          exact hnot
    · rw [if_neg (by simp [hact])] at hfew
      obtain ⟨horderly, hanswers, hgone⟩ := ih (h.dropped hstep) hfew
      have hcount : registrations (act :: acts) = registrations acts := by
        rw [registrations_cons, if_neg (by simp [hact]), Nat.add_zero]
      obtain ⟨found, hfound⟩ := hstep.answer
      refine ⟨hcount ▸ horderly, ?_, ?_⟩
      · rw [hcount, ← hanswers, handles, List.filterMap_cons, hfound]
        rfl
      · intro i hi other hnot
        exact hgone i hi other fun hid => hnot ((hstep.fewer other).subset hid)

/-- Handles mean one listener: none was given out twice, none is in use twice, whatever registries
are taken together, and removing by handle removes the listener that is meant. -/
structure Unambiguous (issued : List ListenerId) (w : World ε) : Prop where
  distinct : issued.Nodup
  given : ∀ place, ∀ id ∈ w.ids place, id ∈ issued
  once : ∀ places : List Place, places.Nodup → (places.flatMap w.ids).Nodup
  board : ∀ n id, (w.board n).RemovesOne id
  connection : ∀ n id, (w.connection n).RemovesOne id

/-- No handle is in use twice, at whatever places one looks for it. -/
theorem Orderly.nodup_flatMap (h : w.Orderly s n) {places : List Place} (hplaces : places.Nodup) :
    (places.flatMap w.ids).Nodup := by
  rw [List.nodup_flatMap]
  refine ⟨fun place _ => h.once place, ?_⟩
  refine hplaces.pairwise_of_forall_ne fun place _ other _ hne => ?_
  exact fun id hid hid' => h.apart place other hne.symm id hid hid'

/-- As long as the numbers of handles have not come round, each of them means one listener. -/
theorem Orderly.unambiguous (h : w.Orderly s n) (hn : n ≤ 2 ^ 64) :
    Unambiguous ((List.range n).map s.handle) w where
  distinct := by
    refine List.Nodup.map_on ?_ List.nodup_range
    intro i hi j hj hsame
    have hi := List.mem_range.mp hi
    have hj := List.mem_range.mp hj
    exact IdSupply.handle_inj (by omega) (by omega) hsame
  given place id hid := by
    obtain ⟨i, hi, hsame⟩ := h.given place id hid
    exact List.mem_map.mpr ⟨i, List.mem_range.mpr hi, hsame⟩
  once _ := h.nodup_flatMap
  board m id := Board.removesOne (h.once (.board m)) id
  connection m id := by
    apply Connection.removesOne
    · intro kind
      exact h.once (.connection m kind)
    · intro kind other hne
      have hplaces : Place.connection m other ≠ .connection m kind := fun hsame =>
        hne (Place.connection.inj hsame).2
      exact h.apart _ _ hplaces id

/-- **Handles mean one listener**, after any registrations and removals at any boards and
connections, as long as there are no more registrations than handles.  A handle that was given out
and is not in use at a place is never in use there again.  The handle that a registration answers
is in use where the listener was registered, and remains so until its removal is asked for. -/
theorem handles_unambiguous (supply : IdSupply) (config : Nat → Config) (dice : Nat → Dice)
    (acts : List (Act ε)) (hfew : registrations acts ≤ 2 ^ 64) :
    Unambiguous (handles (play acts (new supply config dice)).1)
        (play acts (new supply config dice)).2 ∧
      (∀ before after, acts = before ++ after →
        ∀ id ∈ handles (play before (new supply config dice)).1, ∀ place,
          id ∉ (play before (new supply config dice)).2.ids place →
            id ∉ (play acts (new supply config dice)).2.ids place) ∧
      ∀ before act after, acts = before ++ act :: after → ∀ place, act.place? = some place →
        ∃ id, ((play before (new supply config dice)).2.step act).1 = .handle id ∧
          ((∀ later ∈ after, ¬ later.Takes place id) →
            id ∈ (play acts (new supply config dice)).2.ids place) := by
  have hnew := new_orderly (ε := ε) supply config dice
  have hcount : registrations acts = 0 + registrations acts := (Nat.zero_add _).symm
  obtain ⟨horderly, hanswers, -⟩ := hnew.play acts (hcount ▸ hfew)
  rw [← hcount] at horderly
  rw [← List.range_eq_range'] at hanswers
  refine ⟨hanswers ▸ horderly.unambiguous hfew, ?_, ?_⟩
  · rintro before after rfl id hid place hnot
    rw [registrations_append] at hfew
    obtain ⟨hbefore, hgiven, -⟩ := hnew.play before (by omega)
    obtain ⟨-, -, hgone⟩ := hbefore.play after (by omega)
    rw [hgiven] at hid
    obtain ⟨i, hi, rfl⟩ := List.mem_map.mp hid
    rw [play_append]
    exact hgone i (by simpa using hi) place hnot
  · rintro before act after rfl place hplace
    have hstep := step_registered (w := (play before (new supply config dice)).2) hplace
    refine ⟨_, hstep.answer, fun hkeeps => ?_⟩
    have hthere := hstep.there ▸ List.mem_append_right _ (List.mem_singleton_self _)
    have hstays := mem_ids_play hthere hkeeps
    rw [play_append]
    exact hstays

/-- Two connections and a board take turns, and each connection is asked to remove a listener of
the first. -/
def turns : List (Act fun _ => Unit) :=
  [.listen 0 .block fun _ => .done, .add 0 fun _ => .finish .ok,
    .listen 1 .block fun _ => .done, .listen 0 .connection fun _ => .done,
    .removeListener 1 ⟨1⟩, .removeListener 0 ⟨1⟩]

/-- Two connections and a board, and a handle of the first connection that is asked for at all
three.  The second one keeps its own. -/
theorem handles_unambiguous_turns :
    registrations turns ≤ 2 ^ 64 ∧
      Unambiguous [⟨1⟩, ⟨2⟩, ⟨3⟩, ⟨4⟩]
        (play turns (new ⟨1⟩ (fun _ => {}) fun _ => ⟨0⟩)).2 ∧
      ⟨3⟩ ∈ (play turns (new ⟨1⟩ (fun _ => {}) fun _ => ⟨0⟩)).2.ids (.connection 1 .block) := by
  have hfew : registrations turns ≤ 2 ^ 64 := by decide
  have hunambiguous := handles_unambiguous ⟨1⟩ (fun _ => {}) (fun _ => ⟨0⟩) turns hfew
  refine ⟨hfew, hunambiguous.1, ?_⟩
  -- The third registration answers this handle, and only the first one is asked for afterwards.
  obtain ⟨id, hanswer, hstays⟩ := hunambiguous.2.2
    [.listen 0 .block fun _ => .done, .add 0 fun _ => .finish .ok] _ _ rfl _ rfl
  obtain rfl : id = ⟨3⟩ := Answer.handle.inj hanswer.symm
  refine hstays fun later hlater => ?_
  simp only [List.mem_cons, List.not_mem_nil, or_false] at hlater
  obtain rfl | rfl | rfl := hlater <;> simp [Act.Takes]

end World

end LightPeer
