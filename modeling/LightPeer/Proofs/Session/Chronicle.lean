import LightPeer.Session.Journal

/-!
# What a journal tells of a session

A journal runs through many sessions.  A session begins when the stage is entered in which
its link is opened; what stands behind the last such entry belongs to the session in
progress, or to the last one if there is none.  A journal also tells which stage was entered
last, how the peer introduced itself, what is watched, and how filters are built.

Entries about listeners and about settings, and reports of trouble that does not end the session,
tell nothing of it.  They are asides: no view of the session sees them.

A rule for a journal says what may be written behind which entries.

* `thisSession_snoc`, `stageAfter_snoc`, `introduction?_snoc`, `watchedAfter_snoc`,
  `policyAfter_snoc` — what one more entry changes;
* `thisSession_asides`, `stageAfter_asides` — asides change nothing;
* `Keeps.snoc`, `Keeps.asides` — a journal keeps a rule if it is kept by each new entry.
-/

namespace LightPeer

variable {journal entries : List Entry} {entry : Entry} {stage : Stage}

/-- Whether an entry is the beginning of a session. -/
def Entry.begins : Entry → Bool
  | .entered .connecting => true
  | _ => false

/-- The entries of the session in progress, or of the last one, behind its beginning. -/
def thisSession (journal : List Entry) : List Entry :=
  (journal.reverse.takeWhile (! ·.begins)).reverse

/-- The stage after an entry. -/
def Entry.stageFrom (stage : Stage) : Entry → Stage
  | .entered next => next
  | _ => stage

/-- The stage that was entered last. -/
def stageAfter (journal : List Entry) : Stage := journal.foldl Entry.stageFrom .disconnected

/-- The introduction of the peer that an entry tells of. -/
def Entry.introduction? : Entry → Option Version
  | .received (.version v) => some v
  | _ => none

/-- How the peer has introduced itself, for the last time. -/
def introduction? (entries : List Entry) : Option Version :=
  (entries.filterMap Entry.introduction?).getLast?

/-- The addresses that are watched after an entry. -/
def Entry.watchedFrom (addresses : List String) : Entry → List String
  | .watching others => others
  | _ => addresses

/-- The addresses that came to be watched last. -/
def watchedAfter (journal : List Entry) : List String := journal.foldl Entry.watchedFrom []

/-- The way filters are built after an entry. -/
def Entry.policyFrom (policy : FilterPolicy) : Entry → FilterPolicy
  | .tuning other => other
  | _ => policy

/-- The way filters came to be built last, if it was `policy` at first. -/
def policyAfter (policy : FilterPolicy) (journal : List Entry) : FilterPolicy :=
  journal.foldl Entry.policyFrom policy

/-- Whether an entry tells of a setting: what is watched, or how filters are built. -/
def Entry.isSetting : Entry → Bool
  | .watching _ | .tuning _ => true
  | _ => false

/-- One more entry belongs to the session in progress, unless it begins another one: then nothing
has been written of that session yet. -/
theorem thisSession_snoc (journal : List Entry) (entry : Entry) :
    thisSession (journal ++ [entry]) =
      if entry.begins then [] else thisSession journal ++ [entry] := by
  cases h : entry.begins <;> simp [thisSession, h]

/-- Only the last entry is to be looked at to go on from the stage that was known before. -/
theorem stageAfter_snoc (journal : List Entry) (entry : Entry) :
    stageAfter (journal ++ [entry]) = entry.stageFrom (stageAfter journal) := by
  rw [stageAfter, List.foldl_append]
  rfl

/-- A list that comes to be watched replaces the one before, and no other entry touches it. -/
theorem watchedAfter_snoc (journal : List Entry) (entry : Entry) :
    watchedAfter (journal ++ [entry]) = entry.watchedFrom (watchedAfter journal) := by
  rw [watchedAfter, List.foldl_append]
  rfl

/-- A new way to build filters replaces the one before, and no other entry touches it. -/
theorem policyAfter_snoc (policy : FilterPolicy) (journal : List Entry) (entry : Entry) :
    policyAfter policy (journal ++ [entry]) = entry.policyFrom (policyAfter policy journal) := by
  rw [policyAfter, List.foldl_append]
  rfl

/-- What is no setting leaves alone what is watched. -/
theorem Entry.watchedFrom_of_not (h : entry.isSetting = false) (addresses : List String) :
    entry.watchedFrom addresses = addresses := by
  cases entry <;> first | rfl | cases h

/-- What is no setting leaves alone how filters are built. -/
theorem Entry.policyFrom_of_not (h : entry.isSetting = false) (policy : FilterPolicy) :
    entry.policyFrom policy = policy := by
  cases entry <;> first | rfl | cases h

/-- If the peer introduces itself once more, that counts, and not what it said before. -/
theorem introduction?_snoc (entries : List Entry) (entry : Entry) :
    introduction? (entries ++ [entry]) = entry.introduction?.or (introduction? entries) := by
  rw [introduction?, introduction?, List.filterMap_append]
  cases h : entry.introduction? <;> simp [h]

/-- Whether an entry reports that the session is given up. -/
def Entry.givesUp : Entry → Bool
  | .noticed (.sessionFailed ..) => true
  | _ => false

/-- An entry that tells nothing of the session but the stage in which it was written. -/
def Entry.IsAside (stage : Stage) : Entry → Prop
  | .called _ shown _ => shown = stage
  | .watching _ => True
  | .tuning _ => True
  | .said _ => True
  | .noticed (.sessionFailed ..) => False
  | .noticed _ => True
  | _ => False

/-- A report of a failure that ends the session is no aside, although other reports are. -/
theorem Entry.IsAside.givesUp (h : entry.IsAside stage) : entry.givesUp = false := by
  cases entry with
  | noticed n => cases n <;> first | rfl | cases h
  | _ => rfl

theorem Entry.IsAside.begins (h : entry.IsAside stage) : entry.begins = false := by
  cases entry <;> first | rfl | cases h

/-- An aside enters no stage, whatever stage it was written in. -/
theorem Entry.IsAside.stageFrom (h : entry.IsAside stage) (known : Stage) :
    entry.stageFrom known = known := by
  cases entry <;> first | rfl | cases h

theorem Entry.IsAside.introduction? (h : entry.IsAside stage) : entry.introduction? = none := by
  cases entry <;> first | rfl | cases h

/-- Asides are written into the session in progress, behind what is there. -/
theorem thisSession_asides (hentries : ∀ entry ∈ entries, entry.IsAside stage) :
    thisSession (journal ++ entries) = thisSession journal ++ entries := by
  induction entries generalizing journal with
  | nil => rw [List.append_nil, List.append_nil]
  | cons entry entries ih =>
    have hentry := hentries entry List.mem_cons_self
    have hrest : thisSession (journal ++ [entry] ++ entries) =
        thisSession (journal ++ [entry]) ++ entries :=
      ih fun entry hentry => hentries entry (List.mem_cons_of_mem _ hentry)
    rw [thisSession_snoc, hentry.begins] at hrest
    simpa using hrest

/-- Whatever listeners do and whatever is set, the stage that was entered last is the same. -/
theorem stageAfter_asides (hentries : ∀ entry ∈ entries, entry.IsAside stage) :
    stageAfter (journal ++ entries) = stageAfter journal := by
  induction entries generalizing journal with
  | nil => rw [List.append_nil]
  | cons entry entries ih =>
    have hentry := hentries entry List.mem_cons_self
    have hrest : stageAfter (journal ++ [entry] ++ entries) = stageAfter (journal ++ [entry]) :=
      ih fun entry hentry => hentries entry (List.mem_cons_of_mem _ hentry)
    rw [stageAfter_snoc, hentry.stageFrom] at hrest
    simpa using hrest

variable {rule : List Entry → Entry → Prop}

/-- Every entry of a journal keeps a rule about the entries in front of it. -/
def Keeps (rule : List Entry → Entry → Prop) (journal : List Entry) : Prop :=
  ∀ before entry after, journal = before ++ entry :: after → rule before entry

theorem Keeps.nil (rule : List Entry → Entry → Prop) : Keeps rule [] := by
  intro before entry after h
  cases before <;> cases h

/-- A rule speaks of an entry and of those in front of it.  So an entry that keeps it where it is
written down keeps it for good, and one entry at a time is all there is to look at. -/
theorem Keeps.snoc (h : Keeps rule journal) (hentry : rule journal entry) :
    Keeps rule (journal ++ [entry]) := by
  intro before entry' after hsplit
  rcases List.eq_nil_or_concat after with rfl | ⟨after', last, rfl⟩
  · obtain ⟨rfl, hlast⟩ := List.append_inj' hsplit rfl
    cases hlast
    exact hentry
  · have hsplit' : journal ++ [entry] = (before ++ entry' :: after') ++ [last] := by
      rw [hsplit, List.concat_eq_append, List.append_assoc, List.cons_append]
    exact h before entry' after' (List.append_inj' hsplit' rfl).1

/-- Asides that keep a rule wherever they stand do not break it. -/
theorem Keeps.asides (h : Keeps rule journal) (hstage : stageAfter journal = stage)
    (hentries : ∀ entry ∈ entries, entry.IsAside stage)
    (hrule : ∀ before entry, entry.IsAside (stageAfter before) → rule before entry) :
    Keeps rule (journal ++ entries) := by
  induction entries generalizing journal with
  | nil =>
    rw [List.append_nil]
    exact h
  | cons entry entries ih =>
    have hentry := hentries entry List.mem_cons_self
    have hkept : Keeps rule (journal ++ [entry]) := h.snoc (hrule journal entry (hstage ▸ hentry))
    have hafter : stageAfter (journal ++ [entry]) = stage := by
      rw [stageAfter_snoc, hentry.stageFrom, hstage]
    have hrest := ih hkept hafter
      fun entry hentry => hentries entry (List.mem_cons_of_mem _ hentry)
    simpa using hrest

end LightPeer
