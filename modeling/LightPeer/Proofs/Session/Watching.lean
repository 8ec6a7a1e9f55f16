import LightPeer.Proofs.Bloom.Contents
import LightPeer.Proofs.Session.Acts
import LightPeer.Proofs.Session.Outflow

/-!
# What is watched is never missed

A list of addresses is accepted as a whole or refused as a whole, and with the addresses their
hashes are kept.  Nothing but an accepted list changes what is watched, whoever hands it in:
this is the invariant, `Watchful`.  A filter is built from the hashes, and so it has them all,
whatever its size; it travels as the fields of a message, and from these the peer reckons the
same bits.

* `Step.watchful` — a step keeps addresses and hashes together;
* `filterFor_eq`, `contains_filterFor` — a filter for all that is watched;
* `Watchful.covers` — what the peer makes of it;
* `after_vigilant` — the whole way, for every row of acts.
-/

namespace LightPeer

open Connection

variable {allowed : Outgoing → Prop} {d d' : Duty} {c c' : Connection}

/-- A text that is an address. -/
def Address.IsValid (text : String) : Prop := ∃ hash, Address.hash text = .ok hash

namespace Connection

variable {addresses : List String} {watched : List Watched}

/-- A list that is accepted keeps with each address the hash that it stands for. -/
theorem hash_watchedOf (h : watchedOf addresses = .ok watched) :
    ∀ w ∈ watched, Address.hash w.address = .ok w.hash := by
  induction addresses generalizing watched with
  | nil =>
    cases h
    exact nofun
  | cons address addresses ih =>
    rw [watchedOf] at h
    split at h
    · cases h
    · next hash hhash =>
      split at h
      · cases h
      · next rest hrest =>
        cases h
        exact List.forall_mem_cons.mpr ⟨hhash, ih hrest⟩

/-- A list of addresses is not refused. -/
theorem exists_watchedOf (h : ∀ address ∈ addresses, Address.IsValid address) :
    ∃ watched, watchedOf addresses = .ok watched := by
  induction addresses with
  | nil => exact ⟨[], rfl⟩
  | cons address addresses ih =>
    obtain ⟨⟨hash, hhash⟩, hvalid⟩ := List.forall_mem_cons.mp h
    obtain ⟨rest, hrest⟩ := ih hvalid
    exact ⟨⟨address, hash⟩ :: rest, by rw [watchedOf, hhash, hrest]⟩

example : (watchedOf ["bc1qw508d6qejxtdg4y5r3zarvary0c5xw7kv8f3t4"]).toBool = true := by
  decide +kernel

/-- A list that is refused changes nothing:  the addresses that were watched before are watched
still. -/
theorem watch_refused {cause : SessionError} (h : (c.watch addresses).2 = .error cause) :
    (c.watch addresses).1 = c := by
  unfold watch at h ⊢
  split
  · rfl
  · next hlist =>
    rw [hlist] at h
    cases h

/-- A list of addresses is accepted, and this is written down. -/
theorem watch_accepted (h : ∀ address ∈ addresses, Address.IsValid address) (c : Connection) :
    ∃ watched, c.watch addresses =
      (({ c with watched } : Connection).record (.watching addresses), .ok ()) := by
  obtain ⟨watched, hwatched⟩ := exists_watchedOf h
  exact ⟨watched, by rw [watch, hwatched]⟩

/-- Addresses and hashes belong together, and the addresses are those of the list that was accepted
last.  Filters are built in the way that was wished for last. -/
structure Watchful (c : Connection) : Prop where
  hashed : ∀ w ∈ c.watched, Address.hash w.address = .ok w.hash
  told : c.SettingsTold

/-- A new connection watches nothing, and builds filters as its settings say. -/
theorem new_watchful (config : Config) (supply : IdSupply) (dice : Dice) :
    (new config supply dice).Watchful :=
  ⟨nofun, rfl, rfl⟩

/-- An aside may put another list into the place of the one that is watched, but only one that has
been accepted. -/
theorem Watchful.aside (h : c.Watchful) (haside : c.Aside c') : c'.Watchful := by
  refine ⟨?_, haside.told h.told⟩
  rcases haside.watched with hsame | ⟨addresses, haddresses⟩
  · rw [hsame]
    exact h.hashed
  · exact hash_watchedOf haddresses

/-- An entry about something else leaves what is watched and what is noted of it in agreement. -/
theorem Watchful.noted {entry : Entry} (h : c.Watchful) (hentry : entry.isSetting = false)
    (hconfig : c'.config = c.config) (hwatched : c'.watched = c.watched)
    (hpolicy : c'.policy = c.policy) (hjournal : c'.journal = c.journal ++ [entry]) :
    c'.Watchful := by
  refine ⟨?_, h.told.noted hentry hconfig hwatched hpolicy hjournal⟩
  rw [hwatched]
  exact h.hashed

/-- Nothing is written down, and the settings are the same. -/
theorem Watchful.quiet (h : c.Watchful) (hconfig : c'.config = c.config)
    (hwatched : c'.watched = c.watched) (hpolicy : c'.policy = c.policy)
    (hjournal : c'.journal = c.journal) : c'.Watchful := by
  refine ⟨?_, h.told.quiet hconfig hwatched hpolicy hjournal⟩
  rw [hwatched]
  exact h.hashed

end Connection

/-- **A step keeps addresses and hashes together**, also when a listener changes what is watched in
the middle of it. -/
theorem Step.watchful (h : Step allowed (d, c) (d', c')) (hwatchful : c.Watchful) :
    c'.Watchful := by
  cases h with
  | aside haside => exact hwatchful.aside haside
  | hears m =>
    have hheard : (c.record (.received m)).Watchful := hwatchful.noted rfl rfl rfl rfl rfl
    cases m with
    | verack =>
      have hready : ((c.record (.received .verack)).enter .ready).Watchful :=
        hheard.noted rfl rfl rfl rfl rfl
      exact hready.noted rfl rfl rfl rfl rfl
    | _ => exact hheard.quiet rfl rfl rfl rfl
  | @finishes c loading => cases loading <;> exact hwatchful.quiet rfl rfl rfl rfl
  | ends =>
    have hgone : (c.enter .disconnected).Watchful := hwatchful.noted rfl rfl rfl rfl rfl
    exact hgone.noted rfl rfl rfl rfl rfl
  | leaves | strands | passes | answers | hangsUp | asks =>
    exact hwatchful.quiet rfl rfl rfl rfl
  | _ => exact hwatchful.noted rfl rfl rfl rfl rfl

/-- Addresses and hashes stay together over any row of steps. -/
theorem Steps.watchful (h : Steps allowed (d, c) (d', c')) (hwatchful : c.Watchful) :
    c'.Watchful :=
  h.keep (fun _ later => later.Watchful) Step.watchful hwatchful

/-- The message that hands over a filter for all that is watched. -/
def filterMessage (watched : List Watched) (rate : Rate) (tweak : UInt32) (update : FilterUpdate) :
    Outgoing :=
  .filterLoad (.ofFilter (filterFor watched rate tweak) update)

/-- A peer that reads this payload to its end gets a filter within the limits, with this tweak
and this choice of what to add to it, and finds in it the hashes of the addresses. -/
def Covers (payload : Bytes) (tweak : UInt32) (update : FilterUpdate) (addresses : List String) :
    Prop :=
  ∃ filter functions,
    FilterLoad.fields.run payload =
      .ok (filter, functions, tweak, update.toByte) ⟨payload.length, []⟩ ∧
    1 ≤ filter.length ∧ filter.length ≤ 36000 ∧ 1 ≤ functions.toNat ∧ functions.toNat ≤ 50 ∧
    ∀ address ∈ addresses, ∃ hash, Address.hash address = .ok hash ∧
      Bloom.Admits filter functions tweak hash.bytes

/-- A filter for all that is watched has the hashes as its items. -/
theorem filterFor_eq (watched : List Watched) (rate : Rate) (tweak : UInt32) :
    filterFor watched rate tweak = (watched.map fun w => w.hash.bytes).foldl BloomFilter.insert
      (BloomFilter.new watched.length rate tweak) :=
  List.foldl_map.symm

/-- **A filter for all that is watched has each of the hashes**, whatever its size, as no item that
is put in takes out another. -/
theorem contains_filterFor {watched : List Watched} {w : Watched} (h : w ∈ watched) (rate : Rate)
    (tweak : UInt32) : (filterFor watched rate tweak).contains w.hash.bytes = true := by
  rw [filterFor_eq]
  exact BloomFilter.contains_foldl_insert_of_mem (List.mem_map_of_mem h)

/-- The tweak of a filter is the one it was built with. -/
theorem tweak_filterFor (watched : List Watched) (rate : Rate) (tweak : UInt32) :
    (filterFor watched rate tweak).tweak = tweak := by
  rw [filterFor_eq, BloomFilter.tweak_foldl_insert]
  rfl

/-- **The peer finds all that is watched in the filter that it reads.** -/
theorem Connection.Watchful.covers (h : c.Watchful) (rate : Rate) (tweak : UInt32)
    (update : FilterUpdate) :
    Covers (filterMessage c.watched rate tweak update).payload tweak update c.filterList := by
  have htweak := tweak_filterFor c.watched rate tweak
  have hcontains := fun w (hw : w ∈ c.watched) => contains_filterFor hw rate tweak
  rw [filterMessage]
  generalize filterFor c.watched rate tweak = filter at htweak hcontains ⊢
  subst htweak
  have hsize : filter.bytes.length ≤ 36000 := filter.size_le
  have hread := FilterLoad.parses_fields (.ofFilter filter update)
    (Nat.lt_of_le_of_lt hsize (by decide)) 0 []
  rw [List.append_nil, Nat.zero_add] at hread
  refine ⟨filter.bytes, UInt32.ofNat filter.functions, hread, filter.one_le_size, hsize, ?_, ?_, ?_⟩
  · rw [filter.toNat_functions]
    exact filter.one_le_functions
  · rw [filter.toNat_functions]
    exact filter.functions_le
  · intro address haddress
    obtain ⟨w, hw, rfl⟩ := List.mem_map.mp haddress
    exact ⟨w.hash, h.hashed w hw, BloomFilter.admits_of_contains (hcontains w hw)⟩

namespace Connection

/-- Something is watched exactly if the list has an address in it. -/
theorem hasFilter_iff (c : Connection) : c.hasFilter = true ↔ c.filterList ≠ [] := by
  rw [hasFilter, filterList, Bool.not_eq_true', List.isEmpty_eq_false_iff, Ne, Ne,
    List.map_eq_nil_iff]

/-- A filter that is handed over comes behind all other bytes in one frame, or it is not written. -/
theorem transmitFilter_framed (htakes : c.TakesFilter) (hfilter : c.hasFilter) :
    Framed (.filterLoad c.nextFilter) c c.transmitFilter.1 c.transmitFilter.2 := by
  have hframed := transmit_framed (.filterLoad c.nextFilter) { c with dice := c.dice.roll.2 }
  rw [transmitFilter_eq htakes hfilter]
  dsimp only
  generalize Connection.transmit _ _ = sent at hframed ⊢
  have hsent : Framed (.filterLoad c.nextFilter) c sent.1 sent.2 :=
    hframed.since (c.outflow_dice _) rfl
  split
  · constructor
    · rw [outflow_markLoaded]
      exact hsent.outflow
    · rw [outflow_markLoaded]
      exact hsent.done
    · exact hsent.unsent
  · exact hsent

/-- What becomes of a filter.  It is built as it was to be, and covers all that is watched. -/
def Loads (c c' : Connection) (progress : Progress) : Prop :=
  ∃ tweak, let m := filterMessage c.watched c.policy.rate tweak c.policy.update
    Framed m c c' progress ∧ Covers m.payload tweak c.policy.update c.filterList

/-- Where something is watched, the filter that is handed over covers it all. -/
theorem Watchful.transmitFilter (h : c.Watchful) (hfilter : c.filterList ≠ []) :
    c.Loads c.transmitFilter.1 c.transmitFilter.2 := by
  have hcovers := h.covers c.policy.rate c.dice.roll.1.toUInt32 c.policy.update
  refine ⟨c.dice.roll.1.toUInt32, ?_, hcovers⟩
  by_cases htakes : c.TakesFilter
  · exact transmitFilter_framed htakes (c.hasFilter_iff.mpr hfilter)
  · obtain ⟨cause, hrefused⟩ := transmitFilter_refused htakes
    rw [hrefused]
    exact ⟨.inl rfl, nofun, nofun⟩

/-- The owner hands over a filter, and it is for all that is watched at this moment. -/
theorem Watchful.loadFilter (h : c.Watchful) (hfilter : c.filterList ≠ []) :
    c.Loads c.loadFilter.1 c.loadFilter.2 := by
  rw [Connection.loadFilter]
  split
  · obtain ⟨tweak, _, hcovers⟩ := h.transmitFilter hfilter
    refine ⟨tweak, ⟨.inl rfl, ?_, ?_⟩, hcovers⟩
    · rintro ⟨⟩
    · rintro _ ⟨⟩
  · exact h.transmitFilter hfilter

/-- The end of the handshake is answered by a filter, once the listeners have been told. -/
theorem Watchful.onVerack (h : c.Watchful)
    (hfilter : (emit .connection .verack (c.enter .ready)).filterList ≠ []) :
    (emit .connection .verack (c.enter .ready)).Loads c.onVerack.1 c.onVerack.2 := by
  have hready : (c.enter .ready).Watchful := h.noted rfl rfl rfl rfl rfl
  have hemitted : ((c.enter .ready).record (.emitted (.connection .verack))).Watchful :=
    hready.noted rfl rfl rfl rfl rfl
  have htold := hemitted.aside (emit_aside .connection .verack (c.enter .ready))
  have hanswer : c.onVerack = (emit .connection .verack (c.enter .ready)).transmitFilter :=
    if_pos ((hasFilter_iff _).mpr hfilter)
  rw [hanswer]
  exact htold.transmitFilter hfilter

/-- A link that takes everything takes the filter, and the owner is told that this is done. -/
theorem loadFilter_wide (hfilter : c.filterList ≠ []) (htakes : c.TakesFilter)
    (hfree : c.isReplying = false) (hwriter : c.writer.isSome) (hwide : c.link.IsWide) :
    c.loadFilter.2 = .done := by
  rw [loadFilter, hfree, Bool.false_and, Bool.false_and, Bool.false_and, if_neg Bool.false_ne_true,
    transmitFilter_eq htakes (c.hasFilter_iff.mpr hfilter)]
  exact transmit_wide (c := { c with dice := c.dice.roll.2 }) hwide hwriter _

/-- What holds of the list of a connection, and of the filters that are built from it. -/
structure Vigilant (c : Connection) : Prop where
  /-- The addresses are those of the list that was accepted last. -/
  list : c.filterList = watchedAfter c.journal
  /-- The rate of false positives and the choice of what a peer adds to a filter are those that were
  wished for last, by the owner or by a listener, or those of the settings if nobody wished for
  any. -/
  policy : c.policy = policyAfter c.config.filter c.journal
  /-- The hashes are those of the addresses, one for one. -/
  hashes : c.filterList.map Address.hash = c.watched.map fun w => .ok w.hash
  accepting : ∀ addresses, (∀ address ∈ addresses, Address.IsValid address) →
    ∃ watched, c.watch addresses =
      (({ c with watched } : Connection).record (.watching addresses), .ok ())
  refusing : ∀ addresses cause, (c.watch addresses).2 = .error cause →
    (c.watch addresses).1 = c
  /-- Whatever the rate, the tweak and the choice of what to add, a filter has all that is
  watched. -/
  covering : ∀ rate tweak update,
    Covers (filterMessage c.watched rate tweak update).payload tweak update c.filterList
  /-- Such a filter is what the owner hands over. -/
  loading : c.filterList ≠ [] → c.Loads c.loadFilter.1 c.loadFilter.2
  sending : c.filterList ≠ [] → c.TakesFilter → c.isReplying = false → c.writer.isSome →
    c.link.IsWide → c.loadFilter.2 = .done
  /-- And such a filter answers the end of the handshake. -/
  confirming : let told := emit .connection .verack (c.enter .ready)
    told.filterList ≠ [] → told.Loads c.onVerack.1 c.onVerack.2

/-- **From what every step keeps follows what is to be said of a connection at any moment.** -/
theorem Watchful.vigilant (h : c.Watchful) : c.Vigilant where
  list := h.told.watching.symm
  policy := h.told.tuning.symm
  hashes := by
    rw [filterList, List.map_map]
    exact List.map_congr_left h.hashed
  accepting := fun _ hvalid => watch_accepted hvalid c
  refusing := fun _ _ => watch_refused
  covering := h.covers
  loading := h.loadFilter
  sending := loadFilter_wide
  confirming := h.onVerack

end Connection

/-- **What is watched is never missed.**  Whatever is done with a connection, what is watched are
the addresses of the list that was accepted last, with their hashes; a list that is refused
changes nothing.  Filters are built in the way that was wished for last.  A filter for what is
watched is within the limits of the protocol whatever is wanted of it, and a peer that reads it from
the payload finds in it the hash of every address. -/
theorem after_vigilant (config : Config) (supply : IdSupply) (dice : Dice) (acts : List Act) :
    ((Connection.new config supply dice).after acts).Vigilant := by
  have hafter := (new_after_steps config supply dice acts).keep (fun _ c => c.Watchful)
    Step.watchful (new_watchful config supply dice)
  exact hafter.vigilant

end LightPeer
