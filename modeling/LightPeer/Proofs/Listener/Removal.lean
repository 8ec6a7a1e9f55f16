import LightPeer.Listener.Board
import LightPeer.Session.Connection

/-!
# Removing one listener

Where every handle stands once, removing a handle takes out one entry, and all others stay in
their order.  A connection asks one kind of listeners after the other and stops at the first that
knows the handle.  This removes the listener that is meant if the handle stands for no listener of
another kind.

* `Registry.takesOut_remove` — one entry is taken out;
* `Listeners.ofKind_remove`, `Listeners.ofKind_remove_of_not_mem` — of the listeners of one kind,
  and of no other;
* `Board.removesOne`, `Connection.removesOne` — what a removal does on a board and at a connection.
-/

namespace LightPeer

namespace Registry

variable {α : Type} {r : Registry α} {id : ListenerId}

/-- The entry of one handle is taken out of a registry, and all others stay in their order. -/
def TakesOut (id : ListenerId) (before after : Registry α) : Prop :=
  ∃ front listener back, before.entries = front ++ (id, listener) :: back ∧
    after.entries = front ++ back

/-- Entries of other handles stay. -/
theorem filter_eq_self {entries : List (ListenerId × α)} (h : id ∉ entries.map Prod.fst) :
    entries.filter (fun entry => entry.1 ≠ id) = entries := by
  rw [List.filter_eq_self]
  intro entry hentry
  simpa using ne_of_mem_of_not_mem (List.mem_map_of_mem hentry) h

/-- A handle that is not in a registry cannot be removed. -/
theorem remove_of_not_mem (h : id ∉ r.ids) : r.remove id = r := by
  rw [remove, filter_eq_self h]

/-- **Removing a handle takes out its entry**, where every handle stands once. -/
theorem takesOut_remove (hnodup : r.ids.Nodup) (hid : id ∈ r.ids) :
    TakesOut id r (r.remove id) := by
  obtain ⟨⟨_, listener⟩, hentry, rfl⟩ := List.mem_map.mp hid
  obtain ⟨front, back, hentries⟩ := List.append_of_mem hentry
  refine ⟨front, listener, back, hentries, ?_⟩
  rw [ids, hentries, List.map_append, List.map_cons, List.nodup_append] at hnodup
  obtain ⟨-, hback, hfront⟩ := hnodup
  have hnot := (List.nodup_cons.mp hback).1
  have hnot' := fun hmem => hfront _ hmem _ List.mem_cons_self rfl
  rw [remove, hentries, List.filter_append, List.filter_cons_of_neg (by simp),
    filter_eq_self hnot, filter_eq_self hnot']

/-- A handle that has been taken out is not in the registry, whether or not it was there. -/
theorem not_mem_ids_remove (r : Registry α) (id : ListenerId) : id ∉ (r.remove id).ids := by
  rw [ids_remove]
  simp

/-- Any other handle stays. -/
theorem mem_ids_remove {gone : ListenerId} (hid : id ∈ r.ids) (hne : id ≠ gone) :
    id ∈ (r.remove gone).ids := by
  rw [ids_remove]
  exact List.mem_filter.mpr ⟨hid, decide_eq_true hne⟩

/-- Taking out brings in nothing, and leaves the others in their order. -/
theorem ids_remove_sublist (r : Registry α) (id : ListenerId) :
    (r.remove id).ids.Sublist r.ids := by
  rw [ids_remove]
  exact List.filter_sublist

end Registry

namespace Listeners

variable {l : Listeners} {id : ListenerId} {kind other : ListenerKind}

/-- A connection knows a handle if and only if a listener of some kind has it. -/
theorem contains_iff : l.contains id ↔ ∃ kind, id ∈ (l.ofKind kind).ids := by
  rw [contains, Bool.or_eq_true, Bool.or_eq_true, Registry.contains_iff, Registry.contains_iff,
    Registry.contains_iff]
  constructor
  · rintro ((h | h) | h)
    · exact ⟨.connection, h⟩
    · exact ⟨.transaction, h⟩
    · exact ⟨.block, h⟩
  · rintro ⟨kind, h⟩
    cases kind with
    | connection => exact .inl (.inl h)
    | transaction => exact .inl (.inr h)
    | block => exact .inr h

/-- One more listener stands behind those of its kind, and so it is called last. -/
theorem ofKind_add (l : Listeners) (id : ListenerId) (kind : ListenerKind)
    (listener : Listener kind) :
    (l.add id kind listener).ofKind kind = (l.ofKind kind).add id listener := by
  cases kind <;> rfl

/-- A listener of one kind says nothing about those of the others. -/
theorem ofKind_add_of_ne (l : Listeners) (id : ListenerId) {kind other : ListenerKind}
    (listener : Listener kind) (h : other ≠ kind) :
    (l.add id kind listener).ofKind other = l.ofKind other := by
  cases kind <;> cases other <;> first | rfl | contradiction

/-- What a removal does to a kind of listeners: it removes the handle from them, or nothing. -/
theorem ofKind_remove_cases (l : Listeners) (id : ListenerId) (kind : ListenerKind) :
    (l.remove id).ofKind kind = (l.ofKind kind).remove id ∨
      (l.remove id).ofKind kind = l.ofKind kind := by
  unfold remove
  split
  · cases kind <;> first | exact .inl rfl | exact .inr rfl
  · split
    · cases kind <;> first | exact .inl rfl | exact .inr rfl
    · cases kind <;> first | exact .inl rfl | exact .inr rfl

/-- A removal adds no handle. -/
theorem ids_remove_sublist (l : Listeners) (id : ListenerId) (kind : ListenerKind) :
    ((l.remove id).ofKind kind).ids.Sublist (l.ofKind kind).ids := by
  rcases ofKind_remove_cases l id kind with hremoved | hkept
  · rw [hremoved]
    exact Registry.ids_remove_sublist ..
  · exact hkept ▸ List.Sublist.refl _

/-- Any other handle stays. -/
theorem mem_ids_remove {gone : ListenerId} (hid : id ∈ (l.ofKind kind).ids) (hne : id ≠ gone) :
    id ∈ ((l.remove gone).ofKind kind).ids := by
  rcases ofKind_remove_cases l gone kind with hremoved | hkept
  · rw [hremoved]
    exact Registry.mem_ids_remove hid hne
  · exact hkept ▸ hid

/-- A removal leaves the kinds as they are that do not know the handle. -/
theorem ofKind_remove_of_not_mem (h : id ∉ (l.ofKind kind).ids) :
    (l.remove id).ofKind kind = l.ofKind kind := by
  rcases ofKind_remove_cases l id kind with hremoved | hkept
  · rw [hremoved, Registry.remove_of_not_mem h]
  · exact hkept

/-- **The kind that knows a handle gives it up**, if no other kind knows it. -/
theorem ofKind_remove (hid : id ∈ (l.ofKind kind).ids)
    (halone : ∀ other, other ≠ kind → id ∉ (l.ofKind other).ids) :
    (l.remove id).ofKind kind = (l.ofKind kind).remove id := by
  have hno (other : ListenerKind) (hne : other ≠ kind) : ¬ (l.ofKind other).contains id :=
    fun hcontains => halone other hne (Registry.contains_iff.mp hcontains)
  have hyes := Registry.contains_iff.mpr hid
  unfold remove
  cases kind with
  | connection =>
    have hconnection : l.connection.contains id := hyes
    rw [if_pos hconnection]
    rfl
  | transaction =>
    have hconnection : ¬ l.connection.contains id := hno .connection nofun
    have htransaction : l.transaction.contains id := hyes
    rw [if_neg hconnection, if_pos htransaction]
    rfl
  | block =>
    have hconnection : ¬ l.connection.contains id := hno .connection nofun
    have htransaction : ¬ l.transaction.contains id := hno .transaction nofun
    rw [if_neg hconnection, if_neg htransaction]
    rfl

/-- Listeners are the same if they are the same for every kind. -/
theorem ext_ofKind {l l' : Listeners} (h : ∀ kind, l.ofKind kind = l'.ofKind kind) : l = l' := by
  obtain ⟨connection, transaction, block⟩ := l
  obtain ⟨connection', transaction', block'⟩ := l'
  have hconnection : connection = connection' := h .connection
  have htransaction : transaction = transaction' := h .transaction
  have hblock : block = block' := h .block
  rw [hconnection, htransaction, hblock]

end Listeners

/-- On a board a handle is found if it is there, and then its entry is taken out. -/
structure Board.RemovesOne {ε : Type} (id : ListenerId) (b : Board ε) : Prop where
  found : (b.remove id).1 = true ↔ id ∈ b.registry.ids
  taken : id ∈ b.registry.ids → b.registry.TakesOut id (b.remove id).2.registry
  kept : id ∉ b.registry.ids → (b.remove id).2 = b

/-- Where every handle stands once, one listener at most is removed. -/
theorem Board.removesOne {ε : Type} {b : Board ε} (hnodup : b.registry.ids.Nodup)
    (id : ListenerId) : b.RemovesOne id where
  found := Registry.contains_iff
  taken := Registry.takesOut_remove hnodup
  kept := by
    intro hno
    rw [remove, Registry.remove_of_not_mem hno]

/-- At a connection a handle is found if a listener of some kind has it.  Then the entry of this
listener is taken out, the listeners of other kinds stay, and the handle is not found again. -/
structure Connection.RemovesOne (id : ListenerId) (c : Connection) : Prop where
  found : (c.removeListener id).1 = true ↔ ∃ kind, id ∈ (c.listeners.ofKind kind).ids
  taken : ∀ kind, id ∈ (c.listeners.ofKind kind).ids →
    (c.listeners.ofKind kind).TakesOut id ((c.removeListener id).2.listeners.ofKind kind) ∧
      ∀ other, other ≠ kind →
        (c.removeListener id).2.listeners.ofKind other = c.listeners.ofKind other
  kept : (∀ kind, id ∉ (c.listeners.ofKind kind).ids) → (c.removeListener id).2 = c
  again : ((c.removeListener id).2.removeListener id).1 = false

/-- Where every handle stands once, and for one kind at most, one listener at most is removed. -/
theorem Connection.removesOne {c : Connection} {id : ListenerId}
    (hnodup : ∀ kind, (c.listeners.ofKind kind).ids.Nodup)
    (hapart : ∀ kind other, other ≠ kind → id ∈ (c.listeners.ofKind kind).ids →
      id ∉ (c.listeners.ofKind other).ids) : c.RemovesOne id := by
  have halone {kind : ListenerKind} (hid : id ∈ (c.listeners.ofKind kind).ids) :=
    fun other hother => hapart kind other hother hid
  have hkept (hno : ∀ kind, id ∉ (c.listeners.ofKind kind).ids) :
      c.listeners.remove id = c.listeners :=
    Listeners.ext_ofKind fun kind => Listeners.ofKind_remove_of_not_mem (hno kind)
  refine ⟨Listeners.contains_iff, ?_, ?_, ?_⟩
  · intro kind hid
    constructor
    · have hremoved := Listeners.ofKind_remove hid (halone hid)
      show Registry.TakesOut id _ ((c.listeners.remove id).ofKind kind)
      rw [hremoved]
      exact Registry.takesOut_remove (hnodup kind) hid
    · intro other hother
      exact Listeners.ofKind_remove_of_not_mem (halone hid other hother)
  · intro hno
    rw [removeListener, hkept hno]
  · show (c.listeners.remove id).contains id = false
    rw [← Bool.not_eq_true, Listeners.contains_iff]
    rintro ⟨other, hother⟩
    by_cases hsome : ∃ kind, id ∈ (c.listeners.ofKind kind).ids
    · obtain ⟨kind, hid⟩ := hsome
      by_cases hsame : other = kind
      · subst hsame
        rw [Listeners.ofKind_remove hid (halone hid)] at hother
        exact Registry.not_mem_ids_remove _ _ hother
      · rw [Listeners.ofKind_remove_of_not_mem (halone hid other hsame)] at hother
        exact halone hid other hsame hother
    · rw [hkept (not_exists.mp hsome)] at hother
      exact hsome ⟨other, hother⟩

end LightPeer
