import LightPeer.Proofs.Message.RoundTrip

/-!
# Introductions of every version

Which fields stand at the end of an introduction depends on its version, and writer and reader
each decide for themselves which of them are there.  On the wish to be told of transactions they
agree.  The height is written in every version, but looked for only in those whose peers expect a
confirmation; in an older one it is left behind, four bytes in front of the end, and a height that
is not known is given instead.

* `Version.parses_readable` — what is read of an introduction of any version;
* `Version.round_trip_iff` — the versions that are read to their end.
-/

namespace LightPeer

open Wire Wire.Decoder

namespace Wire.Decoder

variable {α β : Type} {order : ByteOrder} {bs more : Bytes} {a : α} {b : β}

/-- A decoder that does not care whether bytes are left. -/
theorem parses_behind_atEnd {f : Bool → Decoder α} (h : ∀ done, Parses order (f done) bs a) :
    Parses order (atEnd >>= f) bs a := by
  intro position rest
  exact h (bs ++ rest).isEmpty position rest

/-- A field that is there or not, with what comes behind it in either case. -/
theorem Parses.bind_ite {field : Prop} [Decidable field] {d d' : Decoder α} {f : α → Decoder β}
    (h : Parses order (if field then d else d') bs a) (h' : Parses order (f a) more b) :
    Parses order (if field then d >>= f else d' >>= f) (bs ++ more) b := by
  by_cases hfield : field
  · rw [if_pos hfield] at h ⊢
    exact h.bind h'
  · rw [if_neg hfield] at h ⊢
    exact h.bind h'

end Wire.Decoder

namespace Version

/-- The fields up to the name of the program, with the end of the introduction behind them. -/
def withTail (v : Version) (tail : Bytes) : Bytes :=
  int32Bytes .little v.version ++ (Bytes.ofNat .little 8 v.services.bits.toNat ++
    (int64Bytes .little v.timestamp ++ (v.receiver.pieces.flatten ++ (v.sender.pieces.flatten ++
      (Bytes.ofNat .little 8 v.nonce.toNat ++
        ((varBytesPieces (Utf8.encode v.userAgent)).flatten ++ tail))))))

/-- The height, where it is looked for. -/
def heightRead (v : Version) : Bytes :=
  if confirmedSince ≤ v.version then int32Bytes .little v.startHeight else []

/-- The wish to be told of transactions, where the version has it. -/
def wish (v : Version) : Bytes :=
  if relayAfter < v.version then [if v.relay then 1 else 0] else []

/-- What is written but not read. -/
def unread (v : Version) : Bytes :=
  if confirmedSince ≤ v.version then [] else int32Bytes .little v.startHeight

/-- The fields of an introduction up to what is not read. -/
def readable (v : Version) : Bytes := v.withTail (v.heightRead ++ v.wish)

/-- An introduction with the wish that a reader takes from it: old versions do not tell it. -/
def told (v : Version) : Version :=
  { v with relay := if relayAfter < v.version then v.relay else true }

/-- What a reader takes from a written introduction. -/
def readBack (v : Version) : Version :=
  { v.told with startHeight := if confirmedSince ≤ v.version then v.startHeight else -1 }

/-- A version with the wish is one with a confirmation. -/
theorem confirmed_of_wish {version : Int32} (h : relayAfter < version) :
    confirmedSince ≤ version :=
  Int32.le_of_lt (Int32.lt_trans (by decide : confirmedSince < relayAfter) h)

/-- What stands behind an introduction does not belong to it. -/
theorem withTail_append (v : Version) (tail more : Bytes) :
    v.withTail (tail ++ more) = v.withTail tail ++ more := by
  simp only [withTail, List.append_assoc]

/-- What is not read stands at the end, behind all that an older peer reads. -/
theorem flatten_pieces_eq_readable (v : Version) : v.pieces.flatten = v.readable ++ v.unread := by
  have hwritten : v.pieces.flatten =
      v.withTail (int32Bytes .little v.startHeight ++ v.wish) := by
    simp only [pieces, withTail, wish, List.flatten_append, List.flatten_cons, List.flatten_nil,
      List.append_nil, List.append_assoc]
    split <;> rfl
  rw [hwritten, readable, ← withTail_append]
  by_cases hconfirmed : confirmedSince ≤ v.version
  · rw [heightRead, unread, if_pos hconfirmed, if_pos hconfirmed, List.append_nil]
  · have hold : ¬ relayAfter < v.version := fun h => hconfirmed (confirmed_of_wish h)
    rw [heightRead, unread, wish, if_neg hconfirmed, if_neg hconfirmed, if_neg hold,
      List.append_nil, List.nil_append]
    rfl

/-- The height is read where it is looked for, and is not known elsewhere. -/
theorem parses_heightRead (v : Version) :
    Parses .little (if confirmedSince ≤ v.version then Decoder.int32 else pure (-1)) v.heightRead
      v.readBack.startHeight := by
  rw [heightRead, readBack]
  by_cases hconfirmed : confirmedSince ≤ v.version
  · simp only [if_pos hconfirmed]
    exact parses_int32 .little v.startHeight
  · simp only [if_neg hconfirmed]
    exact parses_pure .little (-1)

/-- The wish is read where the version has it, and is yes elsewhere. -/
theorem parses_wish {α : Type} (v : Version) (make : Bool → α) :
    Parses .little (atEnd >>= fun done =>
      if relayAfter < v.version && ! done then Decoder.bool >>= fun relay => pure (make relay)
      else pure true >>= fun relay => pure (make relay)) v.wish (make v.told.relay) := by
  rw [wish, told]
  by_cases hwish : relayAfter < v.version
  · simp only [if_pos hwish, decide_eq_true hwish, Bool.true_and]
    exact Parses.behind_atEnd ((parses_bool .little v.relay).map make) (List.cons_ne_nil _ _)
  · simp only [if_neg hwish, decide_eq_false hwish, Bool.false_and]
    apply parses_behind_atEnd
    intro done
    exact (parses_pure .little true).map make

/-- **Of an introduction of any version all is read but a height that is not looked for.** -/
theorem parses_readable (order : ByteOrder) {v : Version}
    (hagent : (Utf8.encode v.userAgent).length < 2 ^ 64) :
    Parses order decoder v.readable v.readBack :=
  Parses.withOrder <| (parses_int32 .little v.version).bind <|
    (parses_uint64 .little v.services.bits).bind <| (parses_int64 .little v.timestamp).bind <|
    (v.receiver.parses_pieces .little).bind <| (v.sender.parses_pieces .little).bind <|
    (parses_uint64 .little v.nonce).bind <| (parses_varString .little hagent).bind <|
    v.parses_heightRead.bind_ite <| v.parses_wish (Version.mk v.version v.services v.timestamp
      v.receiver v.sender v.nonce v.userAgent v.readBack.startHeight)

/-- **Writer and reader agree from the version of the confirmations on**, and on no older version.
Whatever the version, what is read is what was written, but for the wish where the version does
not have it, and for the height where it is not looked for: its bytes are then left. -/
theorem round_trip_iff (order : ByteOrder) (v : Version)
    (hagent : (Utf8.encode v.userAgent).length < 2 ^ 64) (position : Nat) (rest : Bytes) :
    decoder ⟨order, false⟩ ⟨position, v.pieces.flatten ++ rest⟩ =
        .ok v.readBack ⟨position + v.readable.length, v.unread ++ rest⟩ ∧
      (decoder ⟨order, false⟩ ⟨position, v.pieces.flatten ++ rest⟩ =
          .ok v.told ⟨position + v.pieces.flatten.length, rest⟩ ↔ confirmedSince ≤ v.version) := by
  have hread : decoder ⟨order, false⟩ ⟨position, v.pieces.flatten ++ rest⟩ =
      .ok v.readBack ⟨position + v.readable.length, v.unread ++ rest⟩ := by
    rw [flatten_pieces_eq_readable, List.append_assoc]
    exact parses_readable order hagent position (v.unread ++ rest)
  refine ⟨hread, ?_⟩
  rw [hread]
  constructor
  · intro hwhole
    by_contra hold
    have hleft : v.unread ++ rest = rest := (Input.mk.inj (Outcome.ok.inj hwhole).2).2
    have hsize := congrArg List.length hleft
    rw [unread, if_neg hold, List.length_append, int32Bytes, Bytes.length_ofNat] at hsize
    omega
  · intro hconfirmed
    have hnone : v.unread = [] := if_pos hconfirmed
    have hsame : v.readBack = v.told := by
      rw [readBack, if_pos hconfirmed]
      rfl
    rw [flatten_pieces_eq_readable, hnone, hsame, List.append_nil, List.nil_append]

/-- An introduction of the last version without a confirmation, with a height. -/
def unconfirmed : Version :=
  { (default : Version) with
    version := 208, userAgent := "/\u00e9/", startHeight := 100, relay := true }

/-- A height that is written by this version is not read: its four bytes are left in front of what
follows. -/
theorem round_trip_iff_unconfirmed :
    (Utf8.encode unconfirmed.userAgent).length < 2 ^ 64 ∧
      decoder ⟨.big, false⟩ ⟨3, unconfirmed.pieces.flatten ++ [7]⟩ =
        .ok { unconfirmed with startHeight := -1 } ⟨88, [100, 0, 0, 0, 7]⟩ := by
  have hagent : (Utf8.encode unconfirmed.userAgent).length < 2 ^ 64 := by decide
  exact ⟨hagent, (round_trip_iff .big unconfirmed hagent 3 [7]).1⟩

/-- The height of an old introduction is written but not read. -/
theorem height_left_behind :
    ¬ decoder ⟨.little, false⟩ ⟨0, unconfirmed.pieces.flatten⟩ =
      .ok unconfirmed.told ⟨unconfirmed.pieces.flatten.length, []⟩ := by
  have hread := parses_readable .little (v := unconfirmed) (by decide) 0 unconfirmed.unread
  rw [flatten_pieces_eq_readable, hread]
  intro hwhole
  have hleft := (Input.mk.inj (Outcome.ok.inj hwhole).2).2
  revert hleft
  decide

end Version

end LightPeer
