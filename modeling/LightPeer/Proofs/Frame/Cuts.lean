import LightPeer.Frame.Pieces

/-!
# Streams do not depend on their cuts

A stream of frames arrives in pieces of any size.  What has been read of it decides
what is found at its front: a frame that is whole stays what it is, and so does a
fault, whatever comes behind them.

* `front_append_of_frame`, `front_append_of_fault` — this fact for one frame;
* `next_append` — for one message, with the unknown frames before it;
* `drain_append` — for all messages: draining a stream is draining its first part,
  and then what is left of that together with the second part;
* `drainPieces_agrees` — so the pieces of a stream give what the stream gives.
-/

namespace LightPeer.Frame

variable {magic stream rest : Bytes}

section
variable (more : Bytes)

private theorem hasAtLeast_append {n : Nat} (h : Bytes.hasAtLeast n stream) :
    Bytes.hasAtLeast n (stream ++ more) := by
  rw [Bytes.hasAtLeast_iff] at h ⊢
  rw [List.length_append]
  omega

private theorem take_append {n : Nat} (h : Bytes.hasAtLeast n stream) :
    (stream ++ more).take n = stream.take n :=
  List.take_append_of_le_length (Bytes.hasAtLeast_iff.mp h)

private theorem drop_append {n : Nat} (h : Bytes.hasAtLeast n stream) :
    (stream ++ more).drop n = stream.drop n ++ more :=
  List.drop_append_of_le_length (Bytes.hasAtLeast_iff.mp h)

private theorem take_magic_append (h : Bytes.hasAtLeast headerSize stream) :
    (stream ++ more).take 4 = stream.take 4 :=
  List.take_append_of_le_length (Nat.le_trans (by decide) (Bytes.hasAtLeast_iff.mp h))

/-- **A fault stays a fault**, whatever bytes come behind it. -/
theorem front_append_of_fault {error : Error} (h : front magic stream = .fault error rest) :
    front magic (stream ++ more) = .fault error (rest ++ more) := by
  rw [front] at h
  split at h
  · next hsize =>
    rw [front, dif_pos (hasAtLeast_append more hsize)]
    simp only [take_append more hsize, drop_append more hsize, take_magic_append more hsize] at h ⊢
    split at h
    · next hmagic => cases h; rw [if_pos hmagic]
    · next hmagic =>
      rw [if_neg hmagic]
      split at h
      · next hlong => cases h; rw [if_pos hlong]
      · next hlong =>
        rw [if_neg hlong]
        split at h
        · next hbody =>
          simp only [hasAtLeast_append more hbody, if_true, take_append more hbody]
          split at h
          · cases h
          · next hsum => cases h; rw [if_neg hsum, drop_append more hbody]
        · cases h
  · cases h

/-- A frame that is complete stays the first one when more bytes come. -/
theorem front_append_of_frame {command : String} {payload : Bytes} {shorter}
    (h : front magic stream = .frame command payload rest shorter) :
    ∃ shorter', front magic (stream ++ more) = .frame command payload (rest ++ more) shorter' := by
  rw [front] at h
  split at h
  · next hsize =>
    rw [front, dif_pos (hasAtLeast_append more hsize)]
    simp only [take_append more hsize, drop_append more hsize, take_magic_append more hsize] at h ⊢
    split at h
    · cases h
    · next hmagic =>
      rw [if_neg hmagic]
      split at h
      · cases h
      · next hlong =>
        rw [if_neg hlong]
        split at h
        · next hbody =>
          simp only [hasAtLeast_append more hbody, if_true, take_append more hbody,
            drop_append more hbody]
          split at h
          · next hsum =>
            cases h
            simp only [if_pos hsum]
            exact ⟨by rw [List.length_append, List.length_append]; omega, trivial⟩
          · cases h
        · cases h
  · cases h

end

/-- What more bytes make of an answer: an unfinished frame goes on, the others stand. -/
def Next.extend (magic more : Bytes) : Next → Next
  | .message m rest => .message m (rest ++ more)
  | .incomplete rest => next magic (rest ++ more)
  | .fault error rest => .fault error (rest ++ more)

/-- What comes next in a stream is settled by the bytes that there are, unless a frame is
unfinished, and then the rest of it decides. -/
theorem next_append (magic stream more : Bytes) :
    next magic (stream ++ more) = (next magic stream).extend magic more := by
  fun_induction next magic stream with
  | case1 stream => rfl
  | case2 stream error rest hfront =>
    rw [next, front_append_of_fault more hfront]
    rfl
  | case3 stream command payload rest shorter hfront m hm =>
    obtain ⟨shorter', hfront'⟩ := front_append_of_frame more hfront
    rw [next, hfront']
    simp only [hm, Next.extend]
  | case4 stream command payload rest shorter hfront hm ih =>
    obtain ⟨shorter', hfront'⟩ := front_append_of_frame more hfront
    rw [next, hfront']
    simp only [hm, ih]
  | case5 stream command payload rest shorter hfront cause hm =>
    obtain ⟨shorter', hfront'⟩ := front_append_of_frame more hfront
    rw [next, hfront']
    simp only [hm, Next.extend]

/-- An unfinished frame is left where it is, until the rest of it has come. -/
theorem drain_of_incomplete (h : next magic stream = .incomplete rest) :
    drain magic stream = ⟨[], none, rest⟩ := by
  rw [drain]
  split <;> simp_all

/-- Behind a fault nothing is looked at, as nobody could say where the next frame begins. -/
theorem drain_of_fault {error : Error} (h : next magic stream = .fault error rest) :
    drain magic stream = ⟨[], some error, rest⟩ := by
  rw [drain]
  split <;> simp_all

/-- A message is taken, and then the rest of the stream is drained. -/
theorem drain_of_message {m : Message} (h : next magic stream = .message m rest) :
    drain magic stream =
      { drain magic rest with messages := m :: (drain magic rest).messages } := by
  rw [drain]
  split <;> simp_all

/-- Messages that were taken before the others. -/
def Drained.after (ms : List Message) (d : Drained) : Drained :=
  { d with messages := ms ++ d.messages }

/-- What more bytes make of a drained stream: behind a fault nothing is looked at. -/
def Drained.extend (magic more : Bytes) (d : Drained) : Drained :=
  match d.fault with
  | some _ => { d with rest := d.rest ++ more }
  | none => (drain magic (d.rest ++ more)).after d.messages

/-- Messages that were taken before do not matter for what more bytes come to. -/
theorem Drained.extend_after (magic more : Bytes) (ms : List Message) (d : Drained) :
    (d.after ms).extend magic more = (d.extend magic more).after ms := by
  obtain ⟨messages, fault, rest⟩ := d
  cases fault with
  | none => simp [Drained.extend, Drained.after]
  | some error => rfl

/-- Draining looks at a stream only through its first message. -/
theorem drain_congr {stream' : Bytes} (h : next magic stream = next magic stream') :
    drain magic stream = drain magic stream' := by
  rw [drain, drain]
  split <;> split <;> simp_all

/-- Messages that were taken one row after the other were taken in one row. -/
theorem Drained.after_after (ms ms' : List Message) (d : Drained) :
    (d.after ms').after ms = d.after (ms ++ ms') := by
  rw [Drained.after, Drained.after, Drained.after, List.append_assoc]

/-- More bytes only add messages, behind those that were there before them. -/
theorem Drained.exists_messages_extend (magic more : Bytes) (d : Drained) :
    ∃ added, (d.extend magic more).messages = d.messages ++ added := by
  rw [Drained.extend]
  split
  · exact ⟨[], (List.append_nil _).symm⟩
  · exact ⟨_, rfl⟩

/-- Where there is a fault more bytes are only kept. -/
theorem Drained.extend_of_fault (magic more : Bytes) {d : Drained} (h : d.fault.isSome) :
    d.extend magic more = { d with rest := d.rest ++ more } := by
  rw [Drained.extend]
  split
  · rfl
  · next hnone => rw [hnone] at h; cases h

/-- **Draining a stream is draining its first part, and then what is left of that
together with the second part.** -/
theorem drain_append (magic stream more : Bytes) :
    drain magic (stream ++ more) = (drain magic stream).extend magic more := by
  have hnext := next_append magic stream more
  fun_induction drain magic stream with
  | case1 stream rest htaken =>
    rw [htaken] at hnext
    exact drain_congr hnext
  | case2 stream error rest htaken =>
    rw [htaken] at hnext
    exact drain_of_fault hnext
  | case3 stream m rest htaken more' ih =>
    rw [htaken] at hnext
    rw [drain_of_message hnext, ih (next_append magic rest more)]
    exact (Drained.extend_after magic more [m] _).symm

/-- More bytes that come in two parts add what they would add in one. -/
theorem Drained.extend_append (magic more later : Bytes) (d : Drained) :
    d.extend magic (more ++ later) = (d.extend magic more).extend magic later := by
  obtain ⟨messages, fault, rest⟩ := d
  cases fault with
  | none =>
    have happend := drain_append magic (rest ++ more) later
    show (drain magic (rest ++ (more ++ later))).after messages =
      ((drain magic (rest ++ more)).after messages).extend magic later
    rw [Drained.extend_after, ← List.append_assoc, happend]
  | some error =>
    show Drained.mk messages (some error) (rest ++ (more ++ later)) =
      ⟨messages, some error, rest ++ more ++ later⟩
    rw [List.append_assoc]

/-- What a stream without a fault leaves is an unfinished frame. -/
theorem drain_rest (hfault : (drain magic stream).fault = none) :
    drain magic (drain magic stream).rest = ⟨[], none, (drain magic stream).rest⟩ := by
  have happend := drain_append magic stream []
  rw [List.append_nil, Drained.extend, hfault, List.append_nil] at happend
  generalize drain magic (drain magic stream).rest = again at happend ⊢
  obtain ⟨messages, fault, rest⟩ := again
  have hmessages : messages = [] :=
    List.self_eq_append_right.mp (congrArg Drained.messages happend)
  have hnone : none = fault := hfault.symm.trans (congrArg Drained.fault happend)
  have hrest : (drain magic stream).rest = rest := congrArg Drained.rest happend
  rw [hmessages, ← hnone, hrest]

/-- Two readings that nobody can tell apart: behind a fault nothing is read, so only without
one do the bytes that are left count. -/
structure Drained.Agrees (d e : Drained) : Prop where
  messages : d.messages = e.messages
  fault : d.fault = e.fault
  rest : e.fault = none → d.rest = e.rest

/-- What is held is an unfinished frame, so every piece is drained with all of it before. -/
theorem drainPieces_agrees_of_held (pieces : List Bytes) {held : Bytes}
    (hheld : drain magic held = ⟨[], none, held⟩) :
    (drainPieces magic held pieces).Agrees (drain magic (held ++ pieces.flatten)) := by
  induction pieces generalizing held with
  | nil =>
    rw [List.flatten_nil, List.append_nil, hheld]
    exact ⟨rfl, rfl, fun _ => rfl⟩
  | cons piece pieces ih =>
    rw [drainPieces, List.flatten_cons, ← List.append_assoc,
      drain_append magic (held ++ piece), Drained.extend]
    cases hfault : (drain magic (held ++ piece)).fault with
    | some error => exact ⟨rfl, hfault, fun hnone => nomatch hnone⟩
    | none =>
      obtain ⟨hmessages, hnow, hrest⟩ := ih (drain_rest hfault)
      exact ⟨congrArg ((drain magic (held ++ piece)).messages ++ ·) hmessages, hnow, hrest⟩

/-- The stream has no fault of its own, but its end is reported to cut off a frame. -/
def EndsUnfinished (magic : Bytes) (pieces : List Bytes) : Prop :=
  (drainPieces magic [] pieces).fault = none ∧
    ∃ rest, nextAtEnd magic (drainPieces magic [] pieces).rest =
      .fault (.io "bytes remaining on stream") rest

/-- A stream may be cut anywhere: what is taken from the pieces one by one is what is taken from the
whole. -/
theorem drainPieces_agrees_flatten (magic : Bytes) (pieces : List Bytes) :
    (drainPieces magic [] pieces).Agrees (drain magic pieces.flatten) :=
  drainPieces_agrees_of_held pieces (drain_of_incomplete (by rw [next]; rfl))

private theorem endsUnfinished_of_flatten {pieces others : List Bytes}
    (hsame : others.flatten = pieces.flatten) (hends : EndsUnfinished magic pieces) :
    EndsUnfinished magic others := by
  obtain ⟨_, hfault, hrest⟩ := drainPieces_agrees_flatten magic pieces
  obtain ⟨_, hfault', hrest'⟩ := drainPieces_agrees_flatten magic others
  obtain ⟨hnone, hend⟩ := hends
  rw [hsame] at hfault' hrest'
  have hwhole := hfault.symm.trans hnone
  refine ⟨hfault'.trans hwhole, ?_⟩
  rwa [hrest' hwhole, ← hrest hwhole]

/-- **However a stream is cut, the same messages are taken from it, the same fault ends it,
and without a fault the same bytes are left.**  So whether its end cuts off a frame does not
depend on the cuts either. -/
theorem drainPieces_agrees (magic : Bytes) (pieces : List Bytes) :
    (drainPieces magic [] pieces).Agrees (drain magic pieces.flatten) ∧
      ∀ others : List Bytes, others.flatten = pieces.flatten →
        (EndsUnfinished magic others ↔ EndsUnfinished magic pieces) :=
  ⟨drainPieces_agrees_flatten magic pieces, fun _ hsame =>
    ⟨endsUnfinished_of_flatten hsame.symm, endsUnfinished_of_flatten hsame⟩⟩

end LightPeer.Frame
