import LightPeer.Proofs.Session.Exchange

/-!
# The reader answers what it reads

The bytes of a session arrive in portions, and its replies go out in portions.  At every moment
the stream is made of the messages that have been replied to, those that have been read, and the
bytes on the link (`Parsed`); and what the peer has taken, what goes out and what waits are the
frames of the greeting and of the replies (`Spoken`).  A session that has come to the end of the
stream is `Hushed`.  That is the invariant, `Talking`.

* `Spoken.proceed`, `Talking.readFrom`, `Rested.readEnding`, `Talking.resume` — what the tasks of
  a session do keeps it;
* `Talking.settle` — so does all that goes on until the peer is waited for;
* `Turn.apply_rested` — so does a turn.
-/

namespace LightPeer

open Connection
open LightPeer.Frame (Drained)

variable {first c c' : Connection} {hello : Outgoing} {gone stream waiting : Bytes}
variable {ended loading : Bool} {done : List Message} {d : Drained} {progress : Progress}
variable {final : List Entry}

namespace Connection

/-- The messages `done` of a stream have been taken up.  Those in `d` and the bytes that wait on
the link are what is left of it. -/
structure Parsed (first : Connection) (stream : Bytes) (ended : Bool) (waiting : Bytes)
    (done : List Message) (d : Drained) (c : Connection) : Prop where
  running : c.signals.stopping = false
  inbound : c.link.inbound = waiting
  ending : c.link.ending.isSome = ended
  left : first.streamed stream = (d.extend first.config.network.magic waiting).after done
  rest : d.fault = none → first.streamed d.rest = ⟨[], none, d.rest⟩

/-- What has been read of a stream, and what is left of it, does not depend on what is written. -/
theorem Parsed.keep (h : Parsed first stream ended waiting done d c)
    (hsignals : c'.signals = c.signals) (hinbound : c'.link.inbound = c.link.inbound)
    (hending : c'.link.ending = c.link.ending) : Parsed first stream ended waiting done d c' :=
  ⟨(congrArg Signals.stopping hsignals).trans h.running, hinbound.trans h.inbound,
    (congrArg Option.isSome hending).trans h.ending, h.left, h.rest⟩

/-- Messages go from those in hand to those that are done. -/
theorem Parsed.advance {ms now behind : List Message} {fault : Option Frame.Error} {rest : Bytes}
    (h : Parsed first stream ended waiting done ⟨ms, fault, rest⟩ c) (hms : ms = now ++ behind) :
    Parsed first stream ended waiting (done ++ now) ⟨behind, fault, rest⟩ c := by
  subst hms
  have hleft := h.left
  have hsplit : (⟨now ++ behind, fault, rest⟩ : Drained) =
      (⟨behind, fault, rest⟩ : Drained).after now := rfl
  rw [hsplit, Drained.extend_after, Drained.after_after] at hleft
  exact ⟨h.running, h.inbound, h.ending, hleft, h.rest⟩

/-- Bytes that wait on the link are read behind those that are held. -/
theorem Parsed.receive {held : Bytes} {intake : Intake} (size : Nat)
    (h : Parsed first stream ended waiting done ⟨[], none, held⟩ c) (hheld : intake.held = held) :
    Parsed first stream ended (waiting.drop size) done
      (intake.receive first.config.network.magic (waiting.take size)).drained
      (c.leave (waiting.drop size)) := by
  have hdrained := Intake.drained_receive first.config.network.magic (waiting.take size) intake
  rw [hheld] at hdrained
  rw [hdrained]
  refine ⟨h.running, rfl, h.ending, ?_, Frame.drain_rest⟩
  rw [h.left, ← Frame.drain_append, List.append_assoc, List.take_append_drop]
  rfl

/-- More bytes come from the peer, and stand behind all that were there, read or not. -/
theorem Parsed.receives (bs : Bytes) (ending : Option Ending)
    (h : Parsed first stream ended waiting done d c) :
    Parsed first (stream ++ bs) (ended || ending.isSome) (waiting ++ bs) done d
      { c with link := c.link.receive bs ending } where
  running := h.running
  inbound := congrArg (· ++ bs) h.inbound
  ending := by
    rw [← h.ending]
    exact isSome_revise c.link.ending ending
  left := by
    rw [streamed_append, h.left, Drained.extend_after, Drained.extend_append]
  rest := h.rest

/-- A reader that holds the bytes of an unfinished frame has no message in hand. -/
theorem Parsed.messages_eq {held : Bytes}
    (h : Parsed first stream ended [] done ⟨[], none, held⟩ c) :
    (first.streamed stream).messages = done := by
  have hheld := h.rest rfl
  rw [streamed] at hheld
  rw [h.left, Drained.extend, Drained.after, Drained.after, List.append_nil, hheld,
    List.append_nil, List.append_nil]

/-- What a reader has received and not handled, how far the last reply has come, and whether a
filter is to be noted then. -/
inductive Stands : Task → Drained → Progress → Bool → Prop
  | reading (intake : Intake) : Stands (.reading intake) ⟨[], none, intake.held⟩ .done false
  | replying (unsent : Option Outgoing) (backlog : Backlog) (loading : Bool) :
    Stands (.replying unsent backlog loading) backlog.drained (.blocked unsent) loading

/-- The stream has ended, all of it has been replied to, and nothing will be written. -/
structure Hushed (first : Connection) (hello : Outgoing) (gone stream : Bytes) (ended : Bool)
    (c : Connection) : Prop where
  task : c.task = .closing ∨ c.task = .finished
  ended : ended = true
  writer : c.writer = none
  version : c.session.version =
    negotiated first.config.protocolVersion (first.streamed stream).messages
  bytes : first.Transcript hello (first.streamed stream).messages (gone ++ c.link.outbound)

/-- The session goes on, or its stream has ended. -/
def Talking (first : Connection) (hello : Outgoing) (gone stream : Bytes) (ended : Bool)
    (waiting : Bytes) (c : Connection) : Prop :=
  (∃ done d progress loading, Parsed first stream ended waiting done d c ∧
    Stands c.task d progress loading ∧ Spoken first hello gone done progress loading c) ∨
  Hushed first hello gone stream ended c

/-- The reader has read all that there is, if it reads. -/
def Rested (first : Connection) (hello : Outgoing) (gone stream : Bytes) (ended : Bool)
    (c : Connection) : Prop :=
  ∃ waiting, Talking first hello gone stream ended waiting c ∧
    ∀ intake, c.task = .reading intake → waiting = []

/-- Neither the session nor what is to be written is touched.  The peer may take bytes. -/
theorem Spoken.still {gone' : Bytes} (h : Spoken first hello gone done progress loading c)
    (haside : c.Aside c') (hwriter : c'.writer = c.writer)
    (hgone : gone' ++ c'.link.outbound = gone ++ c.link.outbound) :
    Spoken first hello gone' done progress loading c' := by
  have houtflow : gone' ++ c'.outflow = gone ++ c.outflow := by
    rw [outflow, hwriter, ← List.append_assoc, hgone, List.append_assoc, outflow]
  refine ⟨h.carried.aside haside, ?_, ?_, ?_, ?_⟩
  · rw [haside.session]
    exact h.version
  · rw [haside.session]
    exact h.filtered
  · rw [hwriter]
    exact h.emptied
  · rw [houtflow]
    exact h.bytes

/-- Nothing will be written any more, also when the peer takes some of what was. -/
theorem Hushed.still {gone' : Bytes} (h : Hushed first hello gone stream ended c)
    (haside : c.Aside c') (htask : c'.task = c.task) (hwriter : c'.writer = c.writer)
    (hgone : gone' ++ c'.link.outbound = gone ++ c.link.outbound) :
    Hushed first hello gone' stream ended c' := by
  refine ⟨?_, h.ended, hwriter.trans h.writer, ?_, ?_⟩
  · rw [htask]
    exact h.task
  · rw [haside.session]
    exact h.version
  · rw [hgone]
    exact h.bytes

theorem Hushed.task_ne {task : Task} (h : Hushed first hello gone stream ended c)
    (hclosing : task ≠ .closing) (hfinished : task ≠ .finished) : c.task ≠ task := by
  rcases h.task with htask | htask
  · rw [htask]
    exact hclosing.symm
  · rw [htask]
    exact hfinished.symm

/-- A reader whose stream has ended does not wait for bytes. -/
theorem Hushed.not_reading (h : Hushed first hello gone stream ended c) (intake : Intake) :
    c.task ≠ .reading intake :=
  h.task_ne (by simp) (by simp)

/-- A reply goes on as far as the peer takes it, and a filter is noted when it has gone out. -/
theorem Spoken.carryOn {unsent : Option Outgoing}
    (h : Spoken first hello gone done (.blocked unsent) loading c) :
    first.Carried (c.carryOn unsent).1 ∧ ((∀ cause, (c.carryOn unsent).2 ≠ .failed cause) →
      Spoken first hello gone done (c.carryOn unsent).2 loading (c.carryOn unsent).1) := by
  obtain ⟨d, -, hsteps⟩ := carryOn_steps (fun _ => True) loading unsent c
  have hcarried := h.carried.steps hsteps
  refine ⟨hcarried, fun hnot => ?_⟩
  have hsession := session_carryOn unsent c
  have hconveyed := carryOn_conveyed unsent hnot
  obtain ⟨replies, hexchange, hbytes⟩ := h.bytes
  have hnew := hconveyed.bytes
  rw [h.carried.config] at hnew
  refine ⟨hcarried, ?_, ?_, hconveyed.emptied, replies, hexchange, ?_⟩
  · rw [hsession]
    exact h.version
  · rw [hsession]
    exact h.filtered
  · rw [List.append_assoc, hnew, ← List.append_assoc]
    exact hbytes

/-- A reply that has been written may hand over a filter, and this is noted then. -/
theorem Spoken.finish (h : Spoken first hello gone done .done loading c) :
    Spoken first hello gone done .done false (if loading then c.markLoaded else c) := by
  have hstep : Step (fun _ => True) (.waiting none loading, c)
      (.working, if loading then c.markLoaded else c) := .finishes
  have hcarried := h.carried.steps (.single hstep)
  cases loading with
  | false => exact h
  | true =>
    have hfiltered := h.filtered
    rw [Bool.or_true] at hfiltered
    exact ⟨hcarried, h.version, hfiltered, h.emptied, h.bytes⟩

/-- When everything is written, it lies with the peer, and what the peer has taken and what it has
not are one row of frames. -/
theorem Spoken.outbound (h : Spoken first hello gone done .done false c) :
    first.Transcript hello done (gone ++ c.link.outbound) := by
  have hbytes := h.bytes
  rw [outflow, h.emptied rfl, Option.getD_some, List.append_nil] at hbytes
  rw [← List.append_nil (gone ++ c.link.outbound)]
  exact hbytes

/-- The session ends behind the last reply, so that nothing that was owed to the peer is lost. -/
theorem Spoken.conclude (h : Spoken first hello gone done .done false c)
    (hall : (first.streamed stream).messages = done) (hended : ended = true) :
    Hushed first hello gone stream ended c.conclude := by
  have hversion := h.version
  have hbytes := h.outbound
  rw [← hall] at hversion hbytes
  unfold Connection.conclude
  split
  · exact ⟨.inl rfl, hended, rfl, hversion, hbytes⟩
  · have hsame := c.hangUp.endSession_undisturbed
    refine ⟨.inr rfl, hended, hsame.writer, ?_, ?_⟩
    · exact (congrArg Session.version hsame.session).trans hversion
    · have hlink : c.hangUp.endSession.link = c.hangUp.link := hsame.link
      dsimp only
      rw [hlink]
      exact hbytes

/-- What a portion leads to is written behind the entries of its messages. -/
theorem dispatch_journal_before (received : Backlog) (c : Connection) :
    (dispatch received.messages c).1.journal <+: (c.proceed received).journal := by
  unfold proceed
  rcases dispatch received.messages c with ⟨c', _ | ⟨unsent, rest, loading⟩ | cause⟩
  · dsimp only
    split
    · exact (abandon_changes _ c').journal_extends
    · exact List.prefix_refl _
  · exact List.prefix_refl _
  · exact (abandon_changes cause c').journal_extends

section
variable (hsmooth : Smooth first final)
include hsmooth

/-- What has been received is replied to, as far as the peer takes it. -/
theorem Spoken.proceed {received : Backlog} (h : Spoken first hello gone done .done false c)
    (hparsed : Parsed first stream ended waiting done received.drained c)
    (hfinal : (c.proceed received).journal <+: final) :
    Talking first hello gone stream ended waiting (c.proceed received) := by
  obtain ⟨messages, fault, intake⟩ := received
  have hbefore := (dispatch_journal_before ⟨messages, fault, intake⟩ c).trans hfinal
  have hhalted := h.dispatch hsmooth messages hbefore
  have hreader := dispatch_sameReader messages c
  have hread := hparsed.keep hreader.signals hreader.inbound hreader.ending
  rw [Connection.proceed] at hfinal ⊢
  generalize Connection.dispatch messages c = dispatched at hfinal hhalted hread ⊢
  obtain ⟨c', stop⟩ := dispatched
  -- Of the three ways to stop two leave messages or nothing in hand, and the third is excluded.
  cases stop with
  | failed cause => exact absurd hfinal (hsmooth.not_abandoned hhalted cause)
  | blocked unsent rest loading =>
    obtain ⟨now, hsplit, hspoken⟩ := hhalted
    exact .inl ⟨_, _, _, _, (hread.advance hsplit).keep rfl rfl rfl,
      .replying unsent ⟨rest, fault, intake⟩ loading, hspoken.still (task_aside _ c') rfl rfl⟩
  | handled =>
    have hspoken : Spoken first hello gone (done ++ messages) .done false c' := hhalted
    cases fault with
    | some fault => exact absurd hfinal (hsmooth.not_abandoned hspoken.carried (.framing fault))
    | none =>
      have hdone := hread.advance (List.append_nil messages).symm
      exact .inl ⟨_, _, _, _, hdone.keep rfl rfl rfl, .reading intake,
        hspoken.still (task_aside _ c') rfl rfl⟩

/-- The reader has read all that there is, if it reads. -/
theorem Talking.readFrom (waiting : Bytes) (c : Connection)
    (h : Talking first hello gone stream ended waiting c)
    (hfinal : (c.readFrom waiting).journal <+: final) :
    Rested first hello gone stream ended (c.readFrom waiting) := by
  fun_induction Connection.readFrom waiting c with
  | case1 c left htask => exact ⟨[], h, fun _ _ => rfl⟩
  | case2 waiting c left htask hmore intake size received ih =>
    refine ih ?_ hfinal
    have hbefore := (readFrom_changes (waiting.drop size) _).journal_extends.trans hfinal
    rcases h with ⟨done, d, progress, loading, hparsed, hstands, hspoken⟩ | hhushed
    · rw [htask] at hstands
      cases hstands
      -- The reader makes room first, which does not change what it holds.
      have hreceived := hparsed.receive size (Intake.held_reserve 1 left)
      rw [← hspoken.carried.config] at hreceived
      have hleft := hspoken.still (link_aside { c.link with inbound := waiting.drop size } c) rfl
        rfl
      exact hleft.proceed hsmooth hreceived hbefore
    · exact absurd htask (hhushed.not_reading left)
  | case3 waiting c hother =>
    exact ⟨waiting, h, fun intake htask => absurd htask (hother intake)⟩

/-- The end of the stream is the end of the session. -/
theorem Rested.readEnding (h : Rested first hello gone stream ended c)
    (hfinal : c.readEnding.journal <+: final) :
    Rested first hello gone stream ended c.readEnding := by
  have hself (hopen : ∀ intake, c.task = .reading intake → c.link.ending = none) :
      Rested first hello gone stream ended c.readEnding := by
    rw [readEnding_eq_self hopen]
    exact h
  obtain ⟨waiting, ⟨done, d, progress, loading, hparsed, hstands, hspoken⟩ | hhushed, hread⟩ := h
  · cases htask : c.task with
    | reading intake =>
      rw [htask] at hstands
      cases hstands
      cases hread intake htask
      have hover (hended : c.link.ending.isSome) :
          Rested first hello gone stream ended c.conclude := by
        have hhushed := hspoken.conclude hparsed.messages_eq (hparsed.ending.symm.trans hended)
        exact ⟨[], .inr hhushed, fun _ _ => rfl⟩
      cases hending : c.link.ending with
      | none => exact hself fun _ _ => hending
      | some ending =>
        rw [Connection.readEnding, htask, hending] at hfinal ⊢
        -- A link that fails, and a stream that ends inside a frame, are failures of the session.
        cases ending with
        | failed text => exact absurd hfinal (hsmooth.not_abandoned hspoken.carried _)
        | closed =>
          dsimp only at hfinal ⊢
          split at hfinal
          · exact absurd hfinal (hsmooth.not_abandoned hspoken.carried _)
          · exact hover (by rw [hending]; rfl)
    | _ => exact hself fun intake hreading => by cases htask.symm.trans hreading
  · exact hself fun intake htask => absurd htask (hhushed.not_reading intake)

/-- A reply that could be written lets the messages behind it pass. -/
theorem Talking.resume (h : Talking first hello gone stream ended waiting c)
    (hfinal : c.resume.journal <+: final) :
    Talking first hello gone stream ended waiting c.resume := by
  rcases h with ⟨done, d, progress, loading, hparsed, hstands, hspoken⟩ | hhushed
  · unfold Connection.resume at hfinal ⊢
    split at hfinal
    · next unsent backlog loading htask =>
      rw [htask] at hstands
      cases hstands
      have hcarried := hspoken.carryOn
      have hreader := (carryOn_wrote unsent c).reader
      have hread := hparsed.keep hreader.signals hreader.inbound hreader.ending
      generalize Connection.carryOn unsent c = carried at hfinal hcarried hread ⊢
      obtain ⟨c', progress⟩ := carried
      cases progress with
      | done =>
        have hfinished := (hcarried.2 nofun).finish
        refine hfinished.proceed hsmooth ?_ hfinal
        cases loading with
        | false => exact hread
        | true => exact hread.keep rfl rfl rfl
      | blocked unsent =>
        exact .inl ⟨_, _, _, _, hread.keep rfl rfl rfl, .replying unsent backlog loading,
          (hcarried.2 nofun).still (task_aside _ c') rfl rfl⟩
      | failed cause => exact absurd hfinal (hsmooth.not_abandoned hcarried.1 cause)
    · exact .inl ⟨done, d, progress, loading, hparsed, hstands, hspoken⟩
  · unfold Connection.resume
    split
    · next htask => exact absurd htask (hhushed.task_ne nofun nofun)
    · exact .inr hhushed

/-- Everything goes on as far as it can, and while it does every message gets its reply. -/
theorem Talking.settle (h : Talking first hello gone stream ended waiting c)
    (hfinal : c.settle.journal <+: final) : Rested first hello gone stream ended c.settle := by
  rcases h with ⟨done, d, progress, loading, hparsed, hstands, hspoken⟩ | hhushed
  · rw [settle_of_running hparsed.running] at hfinal ⊢
    let left := c.resume.readFrom c.resume.link.inbound
    have hread : left.journal <+: final := (readEnding_changes left).journal_extends.trans hfinal
    have hresume : c.resume.journal <+: final :=
      (readFrom_changes _ c.resume).journal_extends.trans hread
    have hresumed :=
      Talking.resume hsmooth (.inl ⟨done, d, progress, loading, hparsed, hstands, hspoken⟩) hresume
    refine Rested.readEnding hsmooth (Talking.readFrom hsmooth _ c.resume ?_ hread) hfinal
    rcases hresumed with ⟨done, d, progress, loading, hparsed, hstands, hspoken⟩ | hhushed
    · rw [hparsed.inbound]
      exact .inl ⟨done, d, progress, loading, hparsed, hstands, hspoken⟩
    · exact .inr hhushed
  · have hsettled : c.settle = c := by
      refine settle_eq_self ?_
      rcases hhushed.task with htask | htask <;> rw [htask] <;> rfl
    rw [hsettled]
    exact ⟨waiting, .inr hhushed, fun intake htask => absurd htask (hhushed.not_reading intake)⟩

end

/-- What does not concern the reader changes nothing of where the session stands. -/
theorem Talking.still {gone' : Bytes} (h : Talking first hello gone stream ended waiting c)
    (haside : c.Aside c') (htask : c'.task = c.task) (hwriter : c'.writer = c.writer)
    (hinbound : c'.link.inbound = c.link.inbound) (hending : c'.link.ending = c.link.ending)
    (hgone : gone' ++ c'.link.outbound = gone ++ c.link.outbound) :
    Talking first hello gone' stream ended waiting c' := by
  rcases h with ⟨done, d, progress, loading, hparsed, hstands, hspoken⟩ | hhushed
  · rw [← htask] at hstands
    exact .inl ⟨done, d, progress, loading, hparsed.keep haside.signals hinbound hending, hstands,
      hspoken.still haside hwriter hgone⟩
  · exact .inr (hhushed.still haside htask hwriter hgone)

/-- More bytes come from the peer, as long as the stream has not ended. -/
theorem Talking.receives (h : Talking first hello gone stream ended waiting c) (bs : Bytes)
    (ending : Option Ending) (hbytes : ended = true → bs = []) :
    Talking first hello gone (stream ++ bs) (ended || ending.isSome) (waiting ++ bs)
      { c with link := c.link.receive bs ending } := by
  have haside := link_aside (c.link.receive bs ending) c
  rcases h with ⟨done, d, progress, loading, hparsed, hstands, hspoken⟩ | hhushed
  · exact .inl ⟨done, d, progress, loading, hparsed.receives bs ending, hstands,
      hspoken.still haside rfl rfl⟩
  · have hended := hhushed.ended
    have hstill := hhushed.still haside rfl rfl rfl
    rw [hbytes hended] at hstill ⊢
    rw [List.append_nil, List.append_nil]
    refine .inr ⟨hstill.task, ?_, hstill.writer, hstill.version, hstill.bytes⟩
    rw [hended]
    rfl

/-- A reader that has read all there is has still done so after an aside. -/
theorem Rested.undisturbed (h : Rested first hello gone stream ended c) (haside : c.Aside c')
    (hsame : c.Undisturbed c') : Rested first hello gone stream ended c' := by
  obtain ⟨waiting, htalking, hread⟩ := h
  refine ⟨waiting, htalking.still haside hsame.task hsame.writer ?_ ?_ ?_, ?_⟩
  · rw [hsame.link]
  · rw [hsame.link]
  · rw [hsame.link]
  · rw [hsame.task]
    exact hread

end Connection

namespace Turn

/-- A turn in which the owner sends nothing.  The link may change the ways in which it takes and
yields bytes, and the peer may take bytes from the front of those that lie there. -/
def IsReserved : Turn → Prop
  | .send _ => False
  | .loadFilter => False
  | .relink change => ∀ link, (change link).inbound = link.inbound ∧
      (change link).ending = link.ending ∧ (change link).outbound <:+ link.outbound
  | _ => True

/-- The bytes that the peer takes in a turn. -/
def taken (c : Connection) : Turn → Bytes
  | .relink change =>
    c.link.outbound.take (c.link.outbound.length - (change c.link).outbound.length)
  | _ => []

/-- **A turn keeps the invariant**, as long as no bytes come behind the end of the stream. -/
theorem apply_rested (hsmooth : Smooth first final) {turn : Turn} (hturn : turn.IsReserved)
    (hbytes : ended = true → turn.bytes = [])
    (h : Rested first hello gone stream ended c) (hfinal : (turn.apply c).journal <+: final) :
    Rested first hello (gone ++ turn.taken c) (stream ++ turn.bytes) (ended || turn.ends)
      (turn.apply c) := by
  have hsilent {c' : Connection} (h : Rested first hello gone stream ended c') :
      Rested first hello (gone ++ []) (stream ++ []) (ended || false) c' := by
    rw [List.append_nil, List.append_nil, Bool.or_false]
    exact h
  cases turn with
  | deliver bytes ending =>
    obtain ⟨waiting, htalking, _⟩ := h
    show Rested first hello (gone ++ []) (stream ++ bytes) (ended || ending.isSome)
      (c.deliver bytes ending)
    rw [List.append_nil]
    exact (htalking.receives bytes ending hbytes).settle hsmooth hfinal
  | relink change =>
    obtain ⟨waiting, htalking, _⟩ := h
    obtain ⟨hinbound, hending, houtbound⟩ := hturn c.link
    have hgone : (gone ++ (Turn.relink change).taken c) ++ (change c.link).outbound =
        gone ++ c.link.outbound := by
      rw [List.append_assoc]
      exact congrArg (gone ++ ·) (List.suffix_iff_eq_append.mp houtbound)
    show Rested first hello (gone ++ (Turn.relink change).taken c) (stream ++ []) (ended || false)
      (c.relink change)
    rw [List.append_nil, Bool.or_false]
    exact (htalking.still (link_aside (change c.link) c) rfl rfl hinbound hending hgone).settle
      hsmooth hfinal
  | send m => exact absurd hturn id
  | loadFilter => exact absurd hturn id
  | watch addresses =>
    exact hsilent (h.undisturbed (watch_aside addresses c) (watch_undisturbed addresses c))
  | tune policy =>
    exact hsilent (h.undisturbed (setPolicy_aside policy c) ⟨rfl, rfl, rfl, rfl, rfl⟩)
  | listen kind listener =>
    exact hsilent (h.undisturbed (listen_aside kind listener c) ⟨rfl, rfl, rfl, rfl, rfl⟩)
  | remove number =>
    exact hsilent (h.undisturbed (removeListener_aside number c) ⟨rfl, rfl, rfl, rfl, rfl⟩)

/-- No turn takes an entry back, and so the journal of a session that went well has no trouble in it
at any moment. -/
theorem apply_keeps_journal (turn : Turn) (c : Connection) :
    c.journal <+: (turn.apply c).journal := by
  have hkeeps (hkept : (Act.turn turn).KeepsListeners) : c.journal <+: (turn.apply c).journal :=
    (Act.apply_changes hkept c).journal_extends
  cases turn with
  | listen kind listener => exact List.prefix_refl _
  | remove id => exact List.prefix_refl _
  | _ => exact hkeeps trivial

end Turn

end LightPeer
