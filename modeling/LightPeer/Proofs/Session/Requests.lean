import LightPeer.Proofs.Session.Exchange

/-!
# What is asked for when objects are announced

An announcement is answered by a request for the transactions and the blocks in it, entry for
entry; blocks are asked for in the form that fits the filter.  Nothing else in it is asked for, and
if there is nothing to ask for there is no request.

The request is read by the peer as the entries that were meant, to its last byte.  It counts no
more entries than the announcement, in the shortest form of their number, and so it is no longer,
whatever the form of the number there and whatever bytes stand behind the entries.

* `Listed`, `listed_of_decode` — the bytes that an announcement was read from;
* `Mirrors`, `mirrors_iff` — what is asked for, entry by entry;
* `Outgoing.parses_getData` — how a request is read;
* `Connection.decode_asked` — from the payload of an announcement to that of the request.
-/

namespace LightPeer

open Wire Connection

variable {filtered : Bool} {announced asked : List Inventory} {payload : Bytes}

/-- The entries stand in a payload one behind the other, behind some form of their number; any
bytes may follow.  A kind with a name is never given by its number. -/
structure Listed (payload : Bytes) (entries : List Inventory) : Prop where
  bytes : ∃ count rest, CompactSize.Form count entries.length ∧
    payload = count ++ (entries.map fun i => i.pieces.flatten).flatten ++ rest
  named : ∀ entry ∈ entries, entry.kind.Named

/-- **An announcement that was read stands in its payload.** -/
theorem listed_of_decode (h : Message.inventoryDecoder.decode payload = .ok announced) :
    Listed payload announced := by
  obtain ⟨_, rest, hpayload, count, slices, rfl, hcount, hslices⟩ :=
    (Decoder.reads_vector (Inventory.reads_named .little)).exists_of_decode h
  have hbytes : slices = announced.map fun i => i.pieces.flatten := by
    rw [← List.forall₂_eq_eq_eq, List.forall₂_map_right_iff]
    exact hslices.imp fun _ _ hslice => hslice.1
  subst hbytes
  refine ⟨⟨count, rest, hcount, hpayload⟩, ?_⟩
  rw [List.forall₂_map_left_iff, List.forall₂_same] at hslices
  exact fun entry hentry => (hslices entry hentry).2

/-- What is asked for of what was announced, with a filter in the hands of the peer or not. -/
inductive Mirrors (filtered : Bool) : List Inventory → List Inventory → Prop
  | nil : Mirrors filtered [] []
  | tx {announced asked : List Inventory} (hash : Hash256) (h : Mirrors filtered announced asked) :
    Mirrors filtered (⟨.tx, hash⟩ :: announced) (⟨.tx, hash⟩ :: asked)
  | block {announced asked : List Inventory} (hash : Hash256)
    (h : Mirrors filtered announced asked) :
    Mirrors filtered (⟨.block, hash⟩ :: announced)
      (⟨if filtered then .filteredBlock else .block, hash⟩ :: asked)
  | other {announced asked : List Inventory} {entry : Inventory} (htx : entry.kind ≠ .tx)
    (hblock : entry.kind ≠ .block) (h : Mirrors filtered announced asked) :
    Mirrors filtered (entry :: announced) asked

/-- What is asked for mirrors what was announced. -/
theorem wanted_mirrors (filtered : Bool) (announced : List Inventory) :
    Mirrors filtered announced (wanted filtered announced) := by
  induction announced with
  | nil => exact .nil
  | cons entry announced ih =>
    obtain ⟨kind, hash⟩ := entry
    rw [wanted, List.filterMap_cons]
    cases kind with
    | tx => exact .tx hash ih
    | block => cases filtered <;> exact .block hash ih
    | _ => exact .other (by simp) (by simp) ih

/-- An announcement has one mirror, so the relation and the function say the same. -/
theorem mirrors_iff : Mirrors filtered announced asked ↔ asked = wanted filtered announced := by
  constructor
  · intro h
    induction h with
    | nil => rfl
    | tx hash _ ih => rw [ih, wanted, wanted, List.filterMap_cons]
    | block hash _ ih => cases filtered <;> rw [ih] <;> rfl
    | @other announced asked entry htx hblock _ ih =>
      obtain ⟨kind, hash⟩ := entry
      rw [ih, wanted, wanted, List.filterMap_cons]
      cases kind <;> first | rfl | contradiction
  · rintro rfl
    exact wanted_mirrors filtered announced

namespace Mirrors

/-- Whatever is asked for has a kind with a name. -/
theorem named (h : Mirrors filtered announced asked) : ∀ entry ∈ asked, entry.kind.Named := by
  induction h with
  | nil => exact nofun
  | tx hash _ ih => exact List.forall_mem_cons.mpr ⟨nofun, ih⟩
  | block hash _ ih =>
    refine List.forall_mem_cons.mpr ⟨?_, ih⟩
    cases filtered <;> exact nofun
  | other htx hblock _ ih => exact ih

/-- No more is asked for than was announced, since every entry that is asked for stands for one of
its own. -/
theorem length_le (h : Mirrors filtered announced asked) : asked.length ≤ announced.length := by
  induction h with
  | nil => exact Nat.le_refl _
  | tx hash _ ih => exact Nat.succ_le_succ ih
  | block hash _ ih => exact Nat.succ_le_succ ih
  | other htx hblock _ ih => exact Nat.le_succ_of_le ih

/-- **A request is no longer than the payload that the announcement was read from.** -/
theorem length_payload_le (h : Mirrors filtered announced asked)
    (hread : Message.inventoryDecoder.decode payload = .ok announced) :
    (Outgoing.getData asked).payload.length ≤ payload.length := by
  obtain ⟨hcount, hlength⟩ := length_payload_le_of_decode hread
  have hfewer := h.length_le
  have hsize := size_mono hfewer hcount
  rw [Outgoing.length_payload_getData] at hlength ⊢
  omega

end Mirrors

/-- **A request is read as the entries that are asked for**, and nothing of it is left. -/
theorem Outgoing.parses_getData (order : ByteOrder) (hnamed : ∀ entry ∈ asked, entry.kind.Named)
    (hcount : asked.length < 2 ^ 64) :
    Decoder.Parses order Message.inventoryDecoder (getData asked).payload asked := by
  apply Decoder.parses_vector order
  · intro entry hentry
    exact Inventory.parses_pieces order (hnamed entry hentry)
  · intro entry _
    rw [Inventory.flatten_pieces, List.length_append, Bytes.length_ofNat]
    omega
  · exact hcount

/-- The messages that ask for these entries. -/
def requests (asked : List Inventory) : List Outgoing :=
  if asked = [] then [] else [.getData asked]

/-- If all the entries can be asked for at once, so can each by itself. -/
theorem requests_fit (h : (Outgoing.getData asked).Fits) :
    ∀ request ∈ requests asked, request.Fits := by
  intro request hrequest
  rw [requests] at hrequest
  split at hrequest
  · cases hrequest
  · rw [List.mem_singleton.mp hrequest]
    exact h

/-- Bytes are written if and only if something is asked for. -/
theorem Frame.row_requests_eq_nil_iff {magic : Bytes} (hmagic : magic.length = 4) :
    Frame.row magic (requests asked) = [] ↔ asked = [] := by
  rw [requests]
  split
  · next hnone => exact iff_of_true rfl hnone
  · next hsome =>
    rw [Frame.row_singleton]
    exact iff_of_false (Frame.encode_ne_nil hmagic _ _) hsome

namespace Connection

/-- Under the name of an announcement nothing else is read. -/
theorem exists_of_decode_inv {m : Message} (hread : Message.decode "inv" payload = .ok (some m)) :
    ∃ announced, Message.inventoryDecoder.decode payload = .ok announced ∧ m = .inv announced := by
  have hcommand := Message.command_eq_of_decode hread
  have hdecodes := Message.decodes_of_decode hread
  generalize "inv" = name at hdecodes
  cases hdecodes with
  | @inv announced hentries => exact ⟨announced, hentries, rfl⟩
  | _ => exact absurd hcommand (by simp [Message.command])

/-- If nothing is wanted nothing happens, and else one request is handed over. -/
theorem handle_inventory (announced : List Inventory) (c : Connection) :
    c.handle (.inv announced) =
      if wanted c.session.filterLoaded announced = [] then (c, .done)
      else c.transmit (.getData (wanted c.session.filterLoaded announced)) := by
  show c.onInventory announced = _
  rw [onInventory]
  by_cases hnone : wanted c.session.filterLoaded announced = []
  · rw [if_pos hnone, hnone]
    rfl
  · rw [if_neg hnone, if_neg (mt List.isEmpty_iff.mp hnone)]

/-- Unless it fails, the request comes behind the bytes that go out, or waits behind them. -/
theorem inventory_written {announced : List Inventory} {c : Connection}
    (hnot : ∀ cause, (c.handle (.inv announced)).2 ≠ .failed cause) :
    (c.handle (.inv announced)).1.outflow ++
        Frame.row c.config.network.magic (c.handle (.inv announced)).2.unsent =
      c.outflow ++
        Frame.row c.config.network.magic (requests (wanted c.session.filterLoaded announced)) := by
  rw [handle_inventory] at hnot ⊢
  rw [requests]
  split
  · rfl
  · next hsome =>
    rw [if_neg hsome] at hnot
    exact (transmit_conveyed _ hnot).bytes

/-- An announcement is handled while there is somebody to write to and writing does not fail. -/
theorem inventory_handled {c : Connection} (hwriter : c.writer.isSome)
    (hwrites : c.link.failWrites = false) (announced : List Inventory) (cause : SessionError) :
    (c.handle (.inv announced)).2 ≠ .failed cause := by
  rw [handle_inventory]
  split
  · exact nofun
  · exact transmit_not_failed hwriter hwrites _ cause

/-- Over a link that takes everything, nothing of a request is left to be written. -/
theorem inventory_sent {c : Connection} (hwriter : c.writer.isSome) (hwide : c.link.IsWide)
    (announced : List Inventory) :
    (c.handle (.inv announced)).2 = .done ∧
      (wanted c.session.filterLoaded announced ≠ [] →
        (c.handle (.inv announced)).1.writer = some []) := by
  rw [handle_inventory]
  split
  · next hnone => exact ⟨rfl, fun hsome => absurd hnone hsome⟩
  · rw [transmit_written hwide hwriter]
    exact ⟨rfl, fun _ => rfl⟩

/-- What comes of an announcement that was read from `payload`: its mirror is asked for. -/
structure Asked (payload : Bytes) (announced asked : List Inventory) (c : Connection)
    (result : Connection × Progress) : Prop where
  listed : Listed payload announced
  mirrors : Mirrors c.session.filterLoaded announced asked
  silent : asked = [] → result = (c, .done)
  handed : asked ≠ [] → result = c.transmit (.getData asked)
  /-- Unless it fails, the request comes behind the bytes that go out, or waits behind them. -/
  written : (∀ cause, result.2 ≠ .failed cause) →
    result.1.outflow ++ Frame.row c.config.network.magic result.2.unsent =
      c.outflow ++ Frame.row c.config.network.magic (requests asked)
  /-- Then there are no more bytes than before only if there is nothing to ask for. -/
  unwritten : (∀ cause, result.2 ≠ .failed cause) →
    (result.1.outflow ++ Frame.row c.config.network.magic result.2.unsent = c.outflow ↔ asked = [])
  /-- It does not fail while there is somebody to write to and writing does not fail. -/
  handled : c.writer.isSome → c.link.failWrites = false → ∀ cause, result.2 ≠ .failed cause
  /-- Over a link that takes everything, the peer has been sent the request before anything else
  happens, behind all the bytes that were waiting; and it has been sent more bytes than before if
  and only if there is something to ask for. -/
  sent : c.writer.isSome → c.link.IsWide → result.2 = .done ∧
    result.1.outflow = c.outflow ++ Frame.row c.config.network.magic (requests asked) ∧
    (result.1.outflow = c.outflow ↔ asked = []) ∧ (asked ≠ [] → result.1.writer = some [])
  parsed : ∀ order,
    Decoder.Parses order Message.inventoryDecoder (Outgoing.getData asked).payload asked
  shorter : (Outgoing.getData asked).payload.length ≤ payload.length
  /-- A request for what came in a frame fits into a frame, and arrives in it. -/
  arrives : payload.length ≤ Frame.maxPayload →
    Frame.received c.config.network.magic (Frame.row c.config.network.magic (requests asked)) =
      ((requests asked).map Outgoing.arrived, [])

/-- **An announcement is answered by a request for its mirror**, whatever the bytes that it was
read from. -/
theorem decode_asked {m : Message} (c : Connection)
    (hread : Message.decode "inv" payload = .ok (some m)) :
    ∃ announced asked, m = .inv announced ∧ Asked payload announced asked c (c.handle m) := by
  obtain ⟨announced, hentries, rfl⟩ := exists_of_decode_inv hread
  let asked := wanted c.session.filterLoaded announced
  have hmirrors : Mirrors c.session.filterLoaded announced asked := wanted_mirrors _ announced
  have hshorter := hmirrors.length_payload_le hentries
  have hcount : asked.length < 2 ^ 64 :=
    Nat.lt_of_le_of_lt hmirrors.length_le (length_payload_le_of_decode hentries).1
  have hunwritten (hnot : ∀ cause, (c.handle (.inv announced)).2 ≠ .failed cause) :
      (c.handle (.inv announced)).1.outflow ++
          Frame.row c.config.network.magic (c.handle (.inv announced)).2.unsent = c.outflow ↔
        asked = [] := by
    rw [inventory_written hnot, List.append_right_eq_self]
    exact Frame.row_requests_eq_nil_iff (Network.length_magic _)
  refine ⟨announced, asked, rfl,
    { listed := listed_of_decode hentries
      mirrors := hmirrors
      silent := fun hnone => by rw [handle_inventory, if_pos hnone]
      handed := fun hsome => by rw [handle_inventory, if_neg hsome]
      written := inventory_written
      unwritten := hunwritten
      handled := fun hwriter hwrites => inventory_handled hwriter hwrites announced
      sent := ?_
      parsed := fun order => Outgoing.parses_getData order hmirrors.named hcount
      shorter := hshorter
      arrives := ?_ }⟩
  · intro hwriter hwide
    obtain ⟨hdone, hall⟩ := inventory_sent hwriter hwide announced
    have hnot := inventory_handled hwriter hwide.writes announced
    have hbytes := inventory_written hnot
    have hnothing := hunwritten hnot
    have hrow : Frame.row c.config.network.magic Progress.done.unsent = [] := rfl
    rw [hdone, hrow, List.append_nil] at hbytes hnothing
    exact ⟨hdone, hbytes, hnothing, hall⟩
  · intro hframe
    have hfits : (Outgoing.getData asked).Fits := Nat.le_trans hshorter hframe
    exact Frame.received_row (Network.length_magic _) (requests_fit hfits)

/-- One byte over and over. -/
private def toneHash (b : UInt8) : Hash256 := ⟨List.replicate 32 b, List.length_replicate ..⟩

/-- An announcement of every sort of object, one of them twice.  The number of the entries is not in
its shortest form, and a byte stands behind them. -/
def mixedPayload : Bytes :=
  [0xFD, 0x06, 0x00] ++
    ([1, 2, 3, 7, 0, 1].flatMap fun b => [b, 0, 0, 0] ++ List.replicate 32 b) ++ [0xAA]

/-- With a filter in the hands of the peer, the transaction is asked for twice, and the block in
the form that fits.  The link takes everything, and so the request is with the peer. -/
theorem decode_asked_mixed :
    let c : Connection :=
      { Connection.new {} ⟨1⟩ ⟨0⟩ with writer := some [], session.filterLoaded := true }
    let announced : List Inventory := [⟨.tx, toneHash 1⟩, ⟨.block, toneHash 2⟩,
      ⟨.filteredBlock, toneHash 3⟩, ⟨.other 7, toneHash 7⟩, ⟨.error, toneHash 0⟩, ⟨.tx, toneHash 1⟩]
    Message.decode "inv" mixedPayload = .ok (some (.inv announced)) ∧
      Asked mixedPayload announced
        [⟨.tx, toneHash 1⟩, ⟨.filteredBlock, toneHash 2⟩, ⟨.tx, toneHash 1⟩] c
        (c.handle (.inv announced)) ∧
      (c.handle (.inv announced)).2 = .done ∧
      (c.handle (.inv announced)).1.outflow = Frame.row Network.mainnet.magic
        [.getData [⟨.tx, toneHash 1⟩, ⟨.filteredBlock, toneHash 2⟩, ⟨.tx, toneHash 1⟩]] := by
  intro c announced
  have hread : Message.decode "inv" mixedPayload = .ok (some (.inv announced)) := by decide
  obtain ⟨announced', asked, hentries, hasked⟩ := decode_asked c hread
  cases hentries
  have hmirror := mirrors_iff.mp hasked.mirrors
  cases hmirror
  obtain ⟨hdone, hbytes, -, -⟩ := hasked.sent rfl ⟨rfl, rfl⟩
  exact ⟨hread, hasked, hdone, hbytes⟩

end Connection

end LightPeer
