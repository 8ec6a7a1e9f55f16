import LightPeer.Proofs.Message.RoundTrip
import LightPeer.Proofs.Session.Fluent
import LightPeer.Proofs.Session.Handshake

/-!
# When filters are handed over, and what is asked for then

A filter goes only to a peer that has completed the handshake and has said, when it introduced
itself for the last time, that it offers filtering.  From then on, until the session is over,
blocks are asked for in the form that fits the filter; and before they are asked for whole.

The journal says whether a filter was sent in this session, the session says whether that is
noted.  The two differ only while a filter is on its way, and then the reader waits for it and
asks for nothing.  This is the invariant, `Filtered`.

* `wanted_conforms` — what is asked for fits what is noted;
* `Step.filtered` — a step keeps the invariant;
* `after_disciplined` — the discipline, for every row of acts.
-/

namespace LightPeer

open Connection

variable {d d' : Duty} {c c' : Connection}
variable {journal : List Entry} {entry : Entry}

/-- A filter has been sent in this session. -/
def FilterSent (journal : List Entry) : Prop :=
  ∃ filter, .sent (.filterLoad filter) ∈ thisSession journal

/-- In a list of what is asked for, blocks have the form that fits. -/
def Conforms (filtered : Bool) (entries : List Inventory) : Prop :=
  ∀ entry ∈ entries, entry.kind ≠ if filtered then .block else .filteredBlock

/-- What may be sent behind the entries `before`. -/
def Disciplined (before : List Entry) : Entry → Prop
  | .sent (.filterLoad _) => stageAfter before = .ready ∧
      ∃ v, introduction? (thisSession before) = some v ∧ v.services.contains .bloom = true
  | .sent (.getData entries) =>
    (FilterSent before → Conforms true entries) ∧ (¬ FilterSent before → Conforms false entries)
  | _ => True

/-- What the owner may send as a message: neither filters nor requests. -/
def Outgoing.IsPlain : Outgoing → Prop
  | .filterLoad _ => False
  | .getData _ => False
  | _ => True

/-- What is asked for fits what is noted. -/
theorem wanted_conforms (filtered : Bool) (entries : List Inventory) :
    Conforms filtered (Connection.wanted filtered entries) := by
  intro entry hentry
  obtain ⟨announced, _, hwanted⟩ := List.mem_filterMap.mp hentry
  split at hwanted
  · next hkind =>
    cases hwanted
    cases filtered <;> simp [hkind]
  · next hkind =>
    cases hwanted
    cases filtered <;> simp [hkind]
  · cases hwanted

/-- The filter that was sent with an entry. -/
def Entry.filter? : Entry → Option FilterLoad
  | .sent (.filterLoad filter) => some filter
  | _ => none

/-- One more entry of a session is a filter that is sent, or it is not, and then one had been sent
before. -/
theorem filterSent_snoc (hbegins : entry.begins = false) :
    FilterSent (journal ++ [entry]) ↔
      FilterSent journal ∨ ∃ filter, entry = .sent (.filterLoad filter) := by
  rw [FilterSent, FilterSent, thisSession_snoc, hbegins]
  constructor
  · rintro ⟨filter, hfilter⟩
    rcases List.mem_append.mp hfilter with hold | hnew
    · exact .inl ⟨filter, hold⟩
    · exact .inr ⟨filter, (List.mem_singleton.mp hnew).symm⟩
  · rintro (⟨filter, hold⟩ | ⟨filter, rfl⟩)
    · exact ⟨filter, List.mem_append_left _ hold⟩
    · exact ⟨filter, List.mem_append_right _ List.mem_cons_self⟩

/-- An entry that is no filter changes nothing about whether one was sent. -/
theorem filterSent_other (hbegins : entry.begins = false)
    (hother : entry.filter? = none) :
    FilterSent (journal ++ [entry]) ↔ FilterSent journal := by
  rw [filterSent_snoc hbegins]
  constructor
  · rintro (hold | ⟨filter, rfl⟩)
    · exact hold
    · cases hother
  · exact .inl

/-- To take up a message sends no filter.  What is sent for it comes later, as an answer. -/
theorem filterSent_heed (m : Message) (c : Connection) :
    FilterSent (c.heed m).journal ↔ FilterSent c.journal := by
  have hheard : FilterSent (c.record (.received m)).journal ↔ FilterSent c.journal :=
    filterSent_other rfl rfl
  cases m with
  | verack =>
    have hready : FilterSent ((c.record (.received .verack)).enter .ready).journal ↔
        FilterSent (c.record (.received .verack)).journal := filterSent_other rfl rfl
    exact (filterSent_other rfl rfl).trans (hready.trans hheard)
  | _ => exact hheard

/-- Nor does an aside, so listeners have no part in this. -/
theorem filterSent_asides {entries : List Entry} {stage : Stage}
    (h : ∀ entry ∈ entries, entry.IsAside stage) :
    FilterSent (journal ++ entries) ↔ FilterSent journal := by
  rw [FilterSent, FilterSent, thisSession_asides h]
  constructor
  · rintro ⟨filter, hfilter⟩
    rcases List.mem_append.mp hfilter with hold | hnew
    · exact ⟨filter, hold⟩
    · exact absurd (h _ hnew) id
  · rintro ⟨filter, hold⟩
    exact ⟨filter, List.mem_append_left _ hold⟩

/-- Who offers filtering has said so, in the last introduction of the session in progress. -/
theorem Introduced.advertised (h : Introduced c)
    (hbloom : c.session.services.contains .bloom = true) :
    ∃ v, introduction? (thisSession c.journal) = some v ∧ v.services.contains .bloom = true := by
  rw [h.services] at hbloom
  cases hsaid : introduction? (thisSession c.journal) with
  | none =>
    rw [hsaid] at hbloom
    cases hbloom
  | some v =>
    rw [hsaid] at hbloom
    exact ⟨v, rfl, hbloom⟩

/-- A peer that takes filters has offered to, in the last words by which it introduced itself, and
the handshake is over.  So it may be handed one. -/
theorem Connection.TakesFilter.disciplined (h : c.TakesFilter)
    (hstage : stageAfter c.journal = c.session.stage) (hknown : Introduced c)
    (filter : FilterLoad) : Disciplined c.journal (.sent (.filterLoad filter)) :=
  ⟨hstage.trans h.stage, hknown.advertised h.services⟩

/-- The discipline is about messages that are sent, and an aside is none. -/
theorem Disciplined.aside (before : List Entry) (entry : Entry)
    (h : entry.IsAside (stageAfter before)) : Disciplined before entry := by
  cases entry <;> trivial

/-- Whether somebody reads, or is going to. -/
def Duty.serves : Duty → Bool
  | .idle | .closing => false
  | _ => true

/-- What is known of an answer that waits: a filter can be handed over, a request fits, and
what was a filter has been sent. -/
def Duty.Awaits (c : Connection) : Duty → Prop
  | .waiting (some (.filterLoad _)) loading => loading = true ∧ c.TakesFilter
  | .waiting (some (.getData entries)) loading =>
    loading = false ∧ Conforms c.session.filterLoaded entries
  | .waiting (some _) loading => loading = false
  | .waiting none true => FilterSent c.journal
  | _ => True

/-- An aside leaves an answer that waits as it is, and what it has to conform to. -/
theorem Duty.Awaits.aside (h : d.Awaits c) (haside : c.Aside c') : d.Awaits c' := by
  obtain ⟨entries, hentries, hasides⟩ := haside.journal
  rcases d with _ | _ | _ | _ | _ | ⟨_ | reply, loading⟩ | _
  case waiting.none =>
    cases loading with
    | false => trivial
    | true =>
      rw [Awaits, hentries, filterSent_asides hasides]
      exact h
  case waiting.some =>
    cases reply with
    | filterLoad filter => exact ⟨h.1, h.2.aside haside⟩
    | getData requested =>
      rw [Awaits, haside.session]
      exact h
    | _ => exact h
  all_goals trivial

/-- What every step keeps of the discipline. -/
structure Filtered (d : Duty) (c : Connection) : Prop where
  fits : d.Fits c
  stage : stageAfter c.journal = c.session.stage
  known : Introduced c
  disciplined : Keeps Disciplined c.journal
  sent : c.session.filterLoaded = true → FilterSent c.journal
  noted : d.serves → FilterSent c.journal →
    c.session.filterLoaded = true ∨ ∃ unsent, d = .waiting unsent true
  awaits : d.Awaits c

/-- It is noted that the peer has a filter only when one has been written, and not when a message is
taken up. -/
theorem Connection.filterLoaded_heed (m : Message) (c : Connection) :
    (c.heed m).session.filterLoaded = c.session.filterLoaded := by
  cases m <;> rfl

/-- While no filter is on its way, it is noted whether one was sent. -/
theorem Filtered.loaded_iff (h : Filtered d c) (hserves : d.serves)
    (hfree : ∀ unsent, d ≠ .waiting unsent true) :
    c.session.filterLoaded = true ↔ FilterSent c.journal := by
  refine ⟨h.sent, fun hsent => ?_⟩
  rcases h.noted hserves hsent with hloaded | ⟨unsent, hwaiting⟩
  · exact hloaded
  · exact absurd hwaiting (hfree unsent)

/-- A request that waits fits what was sent, and does so when its turn comes, since nothing else is
sent while it waits. -/
theorem Filtered.request {entries : List Inventory} {loading : Bool}
    (h : Filtered (.waiting (some (.getData entries)) loading) c) :
    Disciplined c.journal (.sent (.getData entries)) := by
  obtain ⟨rfl, hconforms⟩ := h.awaits
  have hloaded := h.loaded_iff rfl nofun
  constructor
  · intro hsent
    rw [hloaded.mpr hsent] at hconforms
    exact hconforms
  · intro hunsent
    rw [Bool.eq_false_iff.mpr (mt hloaded.mp hunsent)] at hconforms
    exact hconforms

/-- Whatever a step sends may be sent.  A filter comes from a peer that takes filters, or waits
since then; a request comes from an announcement, and conforms to what is noted of the filter. -/
theorem Step.disciplined (h : Step Outgoing.IsPlain (d, c) (d', c')) (hfiltered : Filtered d c) :
    Keeps Disciplined c'.journal := by
  have hkept := hfiltered.disciplined
  cases h with
  | aside haside =>
    obtain ⟨entries, hentries, hasides⟩ := haside.journal
    rw [hentries]
    exact hkept.asides hfiltered.stage hasides Disciplined.aside
  | hears m =>
    cases m with
    | verack => exact Keeps.snoc (Keeps.snoc (hkept.snoc trivial) trivial) trivial
    | _ => exact hkept.snoc trivial
  | @finishes c loading => cases loading <;> exact hkept
  | ends => exact Keeps.snoc (hkept.snoc trivial) trivial
  | @hands c m loading hwriter =>
    refine hkept.snoc ?_
    have hawaits := hfiltered.awaits
    cases m with
    | filterLoad filter => exact hawaits.2.disciplined hfiltered.stage hfiltered.known filter
    | getData entries => exact hfiltered.request
    | _ => trivial
  | @orders d c m hplain hfree hwriter =>
    refine hkept.snoc ?_
    cases m <;> trivial
  | loads htakes hfree hwriter =>
    exact hkept.snoc (htakes.disciplined hfiltered.stage hfiltered.known _)
  | claims | fails | opens | introduces | begins | tells | abandons => exact hkept.snoc trivial
  | leaves | strands | passes | answers | hangsUp | asks => exact hkept

/-- Wherever it is noted that the peer has a filter, one has been sent in this session. -/
theorem Step.sent (h : Step Outgoing.IsPlain (d, c) (d', c')) (hfiltered : Filtered d c)
    (hloaded : c'.session.filterLoaded = true) : FilterSent c'.journal := by
  have hsent := hfiltered.sent
  cases h with
  | aside haside =>
    obtain ⟨entries, hentries, hasides⟩ := haside.journal
    rw [haside.session] at hloaded
    rw [hentries, filterSent_asides hasides]
    exact hsent hloaded
  | hears m =>
    rw [Connection.filterLoaded_heed] at hloaded
    exact (filterSent_heed m c).mpr (hsent hloaded)
  | @finishes c loading =>
    cases loading with
    | true => exact hfiltered.awaits
    | false => exact hsent hloaded
  | claims | ends => cases hloaded
  | loads => exact (filterSent_snoc rfl).mpr (.inr ⟨_, rfl⟩)
  | fails | opens | introduces | begins | tells | hands | orders | abandons =>
    exact (filterSent_snoc rfl).mpr (.inl (hsent hloaded))
  | leaves | strands | passes | answers | hangsUp | asks => exact hsent hloaded

/-- Where a filter has been sent it is noted, unless it still waits to be written.  Between the two
no message comes up, and so no request is made. -/
theorem Step.noted (h : Step Outgoing.IsPlain (d, c) (d', c')) (hfiltered : Filtered d c)
    (hserves : d'.serves) (hsent : FilterSent c'.journal) :
    c'.session.filterLoaded = true ∨ ∃ unsent, d' = .waiting unsent true := by
  have hnoted := hfiltered.noted
  cases h with
  | aside haside =>
    obtain ⟨entries, hentries, hasides⟩ := haside.journal
    rw [hentries, filterSent_asides hasides] at hsent
    rw [haside.session]
    exact hnoted hserves hsent
  | claims peer hgone =>
    obtain ⟨filter, hfilter⟩ := hsent
    have hnothing : thisSession (c.claimed peer).journal = [] := thisSession_snoc ..
    rw [hnothing] at hfilter
    cases hfilter
  | hears m =>
    rw [filterSent_heed] at hsent
    rw [Connection.filterLoaded_heed]
    exact .inl ((hfiltered.loaded_iff rfl nofun).mpr hsent)
  | @finishes c loading =>
    cases loading with
    | true => exact .inl rfl
    | false => exact .inl ((hfiltered.loaded_iff rfl nofun).mpr hsent)
  | @hands c m loading hwriter =>
    rcases (filterSent_snoc rfl).mp hsent with hold | ⟨filter, hnew⟩
    · rcases hnoted rfl hold with hloaded | ⟨unsent, hwaiting⟩
      · exact .inl hloaded
      · cases hwaiting
        exact .inr ⟨none, rfl⟩
    · cases hnew
      obtain ⟨rfl, _⟩ := hfiltered.awaits
      exact .inr ⟨none, rfl⟩
  | @orders d c m hplain hfree hwriter =>
    have hother : (Entry.sent m).filter? = none := by
      cases m <;> first | rfl | cases hplain
    exact hnoted hserves ((filterSent_other rfl hother).mp hsent)
  | loads => exact .inl rfl
  | opens | introduces | begins | tells =>
    exact .inl ((hfiltered.loaded_iff rfl nofun).mpr ((filterSent_other rfl rfl).mp hsent))
  | passes | answers => exact .inl ((hfiltered.loaded_iff rfl nofun).mpr hsent)
  | asks => exact hnoted hserves hsent
  | fails | leaves | strands | hangsUp | abandons | ends => cases hserves

/-- What an answer has to be, to wait:  a request in keeping with the filter, or a filter that the
peer may be handed. -/
theorem Filtered.answer {m : Message} {reply : Outgoing} (hanswer : c.answer? m = some reply)
    (hfilter : m = .verack → c.TakesFilter) :
    (Duty.waiting (some reply) (m = .verack)).Awaits c := by
  cases m with
  | version v =>
    rw [answer?] at hanswer
    split at hanswer <;> cases hanswer
    rfl
  | verack =>
    rw [answer?] at hanswer
    split at hanswer <;> cases hanswer
    exact ⟨rfl, hfilter rfl⟩
  | ping p =>
    rw [answer?] at hanswer
    cases hnonce : p.nonce with
    | none =>
      rw [hnonce] at hanswer
      cases hanswer
    | some nonce =>
      rw [hnonce] at hanswer
      cases hanswer
      rfl
  | inv entries =>
    rw [answer?] at hanswer
    split at hanswer <;> cases hanswer
    exact ⟨rfl, wanted_conforms _ _⟩
  | _ => cases hanswer

/-- An answer that begins to wait is one that may be sent, and while it waits nothing else is. -/
theorem Step.awaits (h : Step Outgoing.IsPlain (d, c) (d', c')) (hfiltered : Filtered d c) :
    d'.Awaits c' := by
  have hawaits := hfiltered.awaits
  cases h with
  | aside haside => exact hawaits.aside haside
  | answers hanswer hfilter => exact Filtered.answer hanswer hfilter
  | @hands c m loading hwriter =>
    cases loading with
    | false => trivial
    | true =>
      cases m with
      | filterLoad filter => exact (filterSent_snoc rfl).mpr (.inr ⟨filter, rfl⟩)
      | getData entries => cases hawaits.1
      | _ => cases hawaits
  | @orders d c m hplain hfree hwriter | @loads d c m htakes hfree hwriter =>
    cases d <;> trivial
  | @asks d c hidle => cases d <;> trivial
  | _ => trivial

/-- **A step keeps the discipline.**  A filter is sent and noted in one step, or its sending ends
the session. -/
theorem Step.filtered (h : Step Outgoing.IsPlain (d, c) (d', c')) (hfiltered : Filtered d c) :
    Filtered d' c' :=
  ⟨h.fits hfiltered.fits, h.stageAfter_journal hfiltered.stage, h.introduced hfiltered.known,
    h.disciplined hfiltered, h.sent hfiltered, h.noted hfiltered, h.awaits hfiltered⟩

/-- A filter that is refused leaves all as it is.  A number may have been drawn for it. -/
theorem Connection.loadFilter_failed {cause : SessionError} (hwrites : c.link.failWrites = false)
    (h : c.loadFilter.2 = .failed cause) : ∃ dice, c.loadFilter.1 = { c with dice } := by
  rw [loadFilter] at h ⊢
  split at h
  · cases h
  · next hfree =>
    rw [if_neg hfree]
    by_cases htakes : c.TakesFilter
    · cases hfilter : c.hasFilter with
      | false =>
        rw [transmitFilter_nothing htakes hfilter] at h
        cases h
      | true =>
        rw [transmitFilter_eq htakes hfilter] at h ⊢
        by_cases hwriter : c.writer = none
        · have hrefused := transmit_of_none (c := { c with dice := c.dice.roll.2 }) hwriter
            (.filterLoad c.nextFilter)
          dsimp only
          rw [hrefused]
          exact ⟨c.dice.roll.2, rfl⟩
        · exact absurd h (transmit_not_failed (c := { c with dice := c.dice.roll.2 })
            (Option.isSome_iff_ne_none.mpr hwriter) hwrites _ cause)
    · obtain ⟨cause', hrefused⟩ := transmitFilter_refused htakes
      rw [hrefused]
      exact ⟨c.dice, rfl⟩

/-- **Filter discipline.**  If the owner sends neither filters nor requests as messages, and its
own filters are written, then a filter is sent only in a session that is ready and to a peer
that offered filtering when it introduced itself for the last time.  In a session in which one
was sent no whole block is asked for, and in any other no filtered one.  A filter that is
refused is not sent, and the session stays as it is. -/
theorem after_disciplined {config : Config} {supply : IdSupply} {dice : Dice} {acts : List Act}
    (hproper : (Connection.new config supply dice).Proper Outgoing.IsPlain acts) :
    let c := (Connection.new config supply dice).after acts
    Keeps Disciplined c.journal ∧ stageAfter c.journal = c.session.stage ∧
      (c.link.failWrites = false → ∀ cause, c.loadFilter.2 = .failed cause →
        ∃ dice, c.loadFilter.1 = { c with dice }) := by
  have hnew : Filtered (Connection.new config supply dice).task.duty (.new config supply dice) :=
    ⟨new_fits config supply dice, rfl, ⟨rfl, rfl, rfl⟩, .nil Disciplined, nofun, nofun, trivial⟩
  have hsteps := after_steps hproper (new_fits config supply dice)
  have hafter := hsteps.keep Filtered Step.filtered hnew
  exact ⟨hafter.disciplined, hafter.stage, fun hwrites cause hfailed =>
    Connection.loadFilter_failed hwrites hfailed⟩

/-- A call of the owner that returns, over a link that takes bytes, is proper: the filter is written
or refused. -/
theorem Act.proper_loadFilter {c : Connection} (hwrites : c.link.failWrites = false)
    (hreturns : ∀ unsent, c.loadFilter.2 ≠ .blocked unsent) (allowed : Outgoing → Prop) :
    (Act.turn .loadFilter).Proper allowed c := by
  cases hresult : c.loadFilter.2 with
  | done => exact .inl hresult
  | blocked unsent => exact absurd hresult (hreturns unsent)
  | failed cause =>
    obtain ⟨dice, hrefused⟩ := Connection.loadFilter_failed hwrites hresult
    refine .inr (.inl ?_)
    rw [hrefused]

/-- The messages that were sent. -/
def messagesSent (journal : List Entry) : List Outgoing :=
  journal.filterMap fun
    | .sent m => some m
    | _ => none

/-- An address to watch. -/
def someAddress : String := "bc1qw508d6qejxtdg4y5r3zarvary0c5xw7kv8f3t4"

/-- Whoever watches it watches one address. -/
theorem watch_someAddress (c : Connection) : ∃ w, c.watch [someAddress] =
    (({ c with watched := [w] } : Connection).record (.watching [someAddress]), .ok ()) := by
  cases hlist : watchedOf [someAddress] with
  | error cause =>
    have hvalid : (watchedOf [someAddress]).toBool = true := by decide +kernel
    rw [hlist] at hvalid
    cases hvalid
  | ok list =>
    obtain ⟨w, rest, rfl, -, hrest⟩ := List.map_eq_cons_iff.mp (map_address_watchedOf hlist)
    cases List.map_eq_nil_iff.mp hrest
    exact ⟨w, by rw [watch, hlist]⟩

/-- A peer that offers filtering. -/
def offer : Version := { namedVersion with services := .bloom }

/-- A block that is announced. -/
def newBlock : Inventory := ⟨.block, .zero⟩

/-- The announcement. -/
def news : Frame.Packet := ⟨"inv", [1] ++ [2, 0, 0, 0] ++ List.replicate 32 0⟩

/-- A peer introduces itself, offers filtering and confirms.  It announces a block before that and
once more behind it. -/
def eagerness : List Frame.Packet :=
  [news, ⟨"version", offer.pieces.flatten⟩, ⟨"verack", []⟩, news]

/-- What is read of it. -/
def eagerMessages : List Message := [.inv [newBlock], .version offer, .verack, .inv [newBlock]]

/-- All this arrives at once, and with it the first bytes of another frame. -/
def eagerBytes : Bytes :=
  Frame.stream Network.mainnet.magic eagerness ++ Network.mainnet.magic

/-- What arrives is read as the announcement of one block. -/
theorem news_holds : news.Holds (.inv [newBlock]) := by
  show Message.decode _ _ = _
  decide

/-- What arrives is read as the introduction of a peer that offers filtering. -/
theorem offer_holds : Frame.Packet.Holds ⟨"version", offer.pieces.flatten⟩ (.version offer) :=
  Message.decode_of_parses rfl ((Version.parses_pieces .little (v := offer) (by decide)
    (by decide)).map Message.version)

/-- The announcement by itself. -/
def newsBytes : Bytes := Frame.stream Network.mainnet.magic [news]

/-- From all that an eager peer sends its four messages are taken, and the beginning of a fifth is
left. -/
theorem drain_eagerBytes : Frame.drain Network.mainnet.magic eagerBytes =
    ⟨eagerMessages, none, Network.mainnet.magic⟩ := by
  have hfits (p : Frame.Packet) (hp : p ∈ eagerness) : p.Fits := by
    simp only [eagerness, List.mem_cons, List.not_mem_nil, or_false] at hp
    obtain rfl | rfl | rfl | rfl := hp <;> exact ⟨by decide, by decide, by decide⟩
  have hmagic : Network.mainnet.magic.length = 4 := rfl
  have hall := Frame.drain_held hmagic hfits
    (.cons news_holds (.cons offer_holds (.cons rfl (.cons news_holds .nil)))) Network.mainnet.magic
  rw [eagerBytes, hall, Frame.drain_of_incomplete (by rw [Frame.next]; rfl)]
  rfl

theorem drain_newsBytes : Frame.drain Network.mainnet.magic newsBytes =
    ⟨[.inv [newBlock]], none, []⟩ := by
  have hfits (p : Frame.Packet) (hp : p ∈ [news]) : p.Fits := by
    obtain rfl := List.mem_singleton.mp hp
    exact ⟨by decide, by decide, by decide⟩
  exact Frame.drain_whole rfl hfits (.cons news_holds .nil)

/-- All this is less than a reader takes at once. -/
theorem length_eagerBytes : eagerBytes.length = 264 := by
  have hmagic : Network.mainnet.magic.length = 4 := rfl
  rw [eagerBytes, List.length_append, Frame.length_stream hmagic]
  decide

theorem length_newsBytes : newsBytes.length = 61 := by
  have hmagic : Network.mainnet.magic.length = 4 := rfl
  rw [newsBytes, Frame.length_stream hmagic]
  decide

namespace Connection

/-- The block is asked for whole, or filtered if the peer has a filter, under the same hash. -/
theorem wanted_newBlock (filtered : Bool) :
    wanted filtered [newBlock] = [⟨if filtered then .filteredBlock else .block, .zero⟩] := by
  cases filtered <;> rfl

/-- The block is asked for as soon as it is announced. -/
theorem Fluent.handle_newBlock (h : c.Fluent) :
    (c.record (.received (.inv [newBlock]))).handle (.inv [newBlock]) =
      (c.asking [newBlock], .done) := by
  have hwanted : wanted c.session.filterLoaded [newBlock] ≠ [] := by
    rw [wanted_newBlock]
    exact List.cons_ne_nil _ _
  exact h.handle_inv hwanted

/-- What becomes of a session when an eager peer has spoken: a block was asked for, the peer
introduced itself and confirmed, it was handed a filter, and a block was asked for once more. -/
def eager (c : Connection) : Connection :=
  ((c.asking [newBlock]).recognizing offer).confirmed.loaded.asking [newBlock]

/-- What comes of what an eager peer says, if there is something to watch. -/
theorem Fluent.dispatch_eager (h : c.Fluent) (hconfig : c.config = {}) (hwatched : c.watched ≠ []) :
    dispatch eagerMessages c = (c.eager, .handled) := by
  have hasked : (c.asking [newBlock]).Fluent := h.asking _
  have hknown : ((c.asking [newBlock]).recognizing offer).Fluent := hasked.recognizing offer
  have hmodern : confirmedSince ≤
      min offer.version (c.asking [newBlock]).config.protocolVersion := by
    rw [(SameSetup.asking _ c).config, hconfig]
    decide
  have hservices : ((c.asking [newBlock]).recognizing offer).session.services = .bloom := rfl
  have hoffers : ((c.asking [newBlock]).recognizing offer).session.services.contains .bloom =
      true := by
    rw [hservices]
    decide
  have hsame := (SameSetup.asking [newBlock] c).trans (.recognizing offer _)
  have hwatched' : ((c.asking [newBlock]).recognizing offer).watched ≠ [] := by
    rw [hsame.watched]
    exact hwatched
  have hconfirmed := hknown.handle_verack hwatched' hoffers
  have hloaded := hknown.confirmed.loaded
  rw [eagerMessages, dispatch_cons h.handle_newBlock, dispatch_cons (hasked.handle_version hmodern),
    dispatch_cons hconfirmed, dispatch_cons hloaded.handle_newBlock, dispatch, eager]

theorem SameSetup.eager (c : Connection) : c.SameSetup c.eager :=
  ((((SameSetup.asking _ c).trans (.recognizing _ _)).trans (.confirmed _)).trans
    (.loaded _)).trans (.asking _ _)

/-- Nothing of what an eager peer says is held up. -/
theorem Fluent.eager (h : c.Fluent) : c.eager.Fluent :=
  ((h.asking _).recognizing _).confirmed.loaded.asking _

/-- What is known of the session then:  it is ready, the peer offers filtering, and it has a
filter. -/
theorem session_eager (c : Connection) : c.eager.session =
    { c.session with
      stage := .ready
      services := .bloom
      userAgent := some offer.userAgent
      version := some (min offer.version c.config.protocolVersion)
      filterLoaded := true } := by
  simp only [Connection.eager, asking, loaded, confirmed, recognizing, markLoaded, meet, enter,
    written, record]
  rfl

/-- An eager peer has offered filtering and confirmed the handshake, so the owner may hand it
another filter. -/
theorem TakesFilter.eager (c : Connection) : c.eager.TakesFilter := by
  constructor <;> rw [session_eager]
  dsimp only
  decide

/-- **What an eager peer leads to.**  The block is asked for whole before the filter is sent, and
filtered behind it. -/
theorem journal_eager (c : Connection) : ∃ filter, c.eager.journal = c.journal ++
    [.received (.inv [newBlock]), .sent (.getData (wanted c.session.filterLoaded [newBlock])),
      .received (.version offer), .sent .verack, .received .verack, .entered .ready,
      .emitted (.connection .verack), .sent (.filterLoad filter), .received (.inv [newBlock]),
      .sent (.getData [⟨.filteredBlock, .zero⟩])] := by
  have hwanted : wanted true [newBlock] = [⟨.filteredBlock, .zero⟩] := rfl
  refine ⟨((c.asking [newBlock]).recognizing offer).confirmed.nextFilter, ?_⟩
  rw [← hwanted]
  simp only [Connection.eager, asking, loaded, confirmed, recognizing, markLoaded, meet, enter,
    written, record, List.append_assoc, List.cons_append, List.nil_append]

/-- An eager peer has been met, and it has left the first bytes of a frame. -/
def acquainted (first : Connection) (intake : Intake) : Connection :=
  { (first.greeted {}).eager with task := .reading intake }

/-- What is watched is still watched when an eager peer has been met. -/
theorem SameSettings.acquainted (first : Connection) (intake : Intake) :
    first.SameSettings (first.acquainted intake) :=
  ((SameSettings.greeted first {}).trans (SameSetup.eager _).toSameSettings).trans (.task _ _)

/-- **A session with an eager peer**, the last bytes of which are held. -/
theorem after_eager (first : Connection) (hstage : first.session.stage = .disconnected)
    (hconfig : first.config = {}) (hquiet : (first.listeners.ofKind .connection).entries = [])
    (hwatched : first.watched ≠ []) :
    ∃ intake, intake.held = Network.mainnet.magic ∧
      first.after [.connect default {} 0, .turn (.deliver eagerBytes none)] =
        first.acquainted intake := by
  have hsame := SameSettings.greeted first {}
  have hread : Frame.drain first.config.network.magic eagerBytes =
      ⟨eagerMessages, none, Network.mainnet.magic⟩ := by
    rw [hconfig]
    exact drain_eagerBytes
  have hsome : eagerBytes ≠ [] := List.ne_nil_of_length_pos (by rw [length_eagerBytes]; decide)
  have hfew : eagerBytes.length ≤ 8192 := by rw [length_eagerBytes]; decide
  have hwatched' : (first.greeted {}).watched ≠ [] := by
    rw [hsame.watched]
    exact hwatched
  have hhandled := (greeted_fluent hquiet).dispatch_eager (hsame.config.trans hconfig) hwatched'
  have hdelivered := connect_deliver hstage hquiet hread hsome hfew hhandled rfl
  exact ⟨_, Intake.held_left .., hdelivered⟩

/-- In such a session the owner hands over another filter, and ends it. -/
theorem depart_acquainted (first : Connection)
    (hquiet : (first.listeners.ofKind .connection).entries = []) (hwatched : first.watched ≠ [])
    (intake : Intake) :
    (first.acquainted intake).loadFilter = ((first.acquainted intake).loaded, .done) ∧
      (first.acquainted intake).loaded.disconnect =
        ((first.acquainted intake).departed, .done) := by
  have hsame := SameSetup.eager (first.greeted {})
  have hfluent : (first.acquainted intake).Fluent := (greeted_fluent hquiet).eager.reading intake
  have htakes : (first.acquainted intake).TakesFilter := (TakesFilter.eager _).reading intake
  have hwatched' : (first.acquainted intake).watched ≠ [] := by
    rw [(SameSettings.acquainted first intake).watched]
    exact hwatched
  have hsignals : (first.acquainted intake).signals = .reading := by
    rw [acquainted, hsame.signals]
    rfl
  have hstall : (first.acquainted intake).link.stallClose = false := by
    rw [acquainted, hsame.stallClose]
    rfl
  exact hfluent.depart rfl htakes hwatched' hsignals hstall

/-- The owner hands over one more filter, which is taken, and ends the session. -/
theorem after_depart (first : Connection)
    (hquiet : (first.listeners.ofKind .connection).entries = []) (hwatched : first.watched ≠ [])
    (intake : Intake) :
    (first.acquainted intake).after [.turn .loadFilter, .disconnect] =
      (first.acquainted intake).departed := by
  obtain ⟨hloaded, hended⟩ := depart_acquainted first hquiet hwatched intake
  show (first.acquainted intake).loadFilter.1.disconnect.1 = _
  rw [hloaded, hended]

/-- **A session that begins with news**, before the peer has introduced itself.  The block is asked
for whole, for no filter is left of the session before. -/
theorem after_news (first : Connection) (hstage : first.session.stage = .disconnected)
    (hconfig : first.config = {}) (hquiet : (first.listeners.ofKind .connection).entries = []) :
    ∃ intake, first.after [.connect default {} 0, .turn (.deliver newsBytes none)] =
      { (first.greeted {}).asking [newBlock] with task := .reading intake } := by
  have hread : Frame.drain first.config.network.magic newsBytes =
      ⟨[.inv [newBlock]], none, []⟩ := by
    rw [hconfig]
    exact drain_newsBytes
  have hsome : newsBytes ≠ [] := List.ne_nil_of_length_pos (by rw [length_newsBytes]; decide)
  have hfew : newsBytes.length ≤ 8192 := by rw [length_newsBytes]; decide
  have hhandled : dispatch [.inv [newBlock]] (first.greeted {}) =
      ((first.greeted {}).asking [newBlock], .handled) := by
    rw [dispatch_cons (greeted_fluent hquiet).handle_newBlock, dispatch]
  exact ⟨_, connect_deliver hstage hquiet hread hsome hfew hhandled rfl⟩

end Connection

/-- The owner hands over a filter before there is a session, watches an address, meets an eager
peer, hands over another filter, and ends the session.  The next one begins with news. -/
def watchfulActs : List Act :=
  [.turn .loadFilter, .turn (.watch [someAddress])] ++
    ([.connect default {} 0, .turn (.deliver eagerBytes none)] ++
      ([.turn .loadFilter, .disconnect] ++
        [.connect default {} 0, .turn (.deliver newsBytes none)]))

/-- A new connection that watches one address. -/
def onlooker (w : Watched) : Connection :=
  ({ Connection.new {} ⟨1⟩ ⟨0⟩ with watched := [w] } : Connection).record (.watching [someAddress])

/-- What comes of it. -/
theorem after_watchfulActs : ∃ w intake intake',
    (Connection.new {} ⟨1⟩ ⟨0⟩).Proper Outgoing.IsPlain watchfulActs ∧
      (Connection.new {} ⟨1⟩ ⟨0⟩).after watchfulActs =
        { (((onlooker w).acquainted intake).departed.greeted {}).asking [newBlock] with
          task := .reading intake' } := by
  let first := Connection.new {} ⟨1⟩ ⟨0⟩
  obtain ⟨w, hwatch⟩ := watch_someAddress first
  have hwatching : first.after [.turn .loadFilter, .turn (.watch [someAddress])] = onlooker w :=
    congrArg Prod.fst hwatch
  obtain ⟨intake, -, hmet⟩ :=
    after_eager (onlooker w) rfl rfl rfl (List.cons_ne_nil _ _)
  obtain ⟨hloaded, -⟩ :=
    depart_acquainted (onlooker w) rfl (List.cons_ne_nil _ _) intake
  have hdeparted := after_depart (onlooker w) rfl (List.cons_ne_nil _ _) intake
  have hspent := (SameSettings.acquainted (onlooker w) intake).trans (.departed _)
  have hquiet : (((onlooker w).acquainted intake).departed.listeners.ofKind .connection).entries =
      [] := by
    rw [hspent.listeners]
    rfl
  have hstage : ((onlooker w).acquainted intake).departed.session.stage = .disconnected := by
    rw [session_departed]
  obtain ⟨intake', hnews⟩ := after_news _ hstage hspent.config hquiet
  refine ⟨w, intake, intake', ?_, ?_⟩
  · have hrefused : first.Proper Outgoing.IsPlain
        [.turn .loadFilter, .turn (.watch [someAddress])] := ⟨.inr (.inl rfl), trivial, trivial⟩
    refine hrefused.append ?_
    rw [hwatching]
    refine Proper.append ⟨trivial, trivial, trivial⟩ ?_
    rw [hmet]
    exact Proper.append ⟨.inl (congrArg Prod.snd hloaded), trivial, trivial⟩
      ⟨trivial, trivial, trivial⟩
  · rw [watchfulActs, after_append, hwatching, after_append, hmet, after_append, hdeparted, hnews]

/-- Blocks are asked for whole, and filtered once the peer has been handed a filter, and whole again
in the next session.  The filters that were handed over were due, and the one that was not is
refused. -/
theorem after_disciplined_of_watchful :
    let first := Connection.new {} ⟨1⟩ ⟨0⟩
    let c := first.after watchfulActs
    first.Proper Outgoing.IsPlain watchfulActs ∧
      (∃ hello filter filter' hello', messagesSent c.journal =
        [.version hello, .getData [⟨.block, .zero⟩], .verack, .filterLoad filter,
          .getData [⟨.filteredBlock, .zero⟩], .filterLoad filter', .version hello',
          .getData [⟨.block, .zero⟩]]) ∧
      Keeps Disciplined c.journal ∧ stageAfter c.journal = c.session.stage ∧
      c.loadFilter.2 = .failed .notConnected ∧ ∃ dice, c.loadFilter.1 = { c with dice } := by
  obtain ⟨w, intake, intake', hproper, hafter⟩ := after_watchfulActs
  obtain ⟨hkept, hstage, hrefused⟩ := after_disciplined hproper
  refine ⟨hproper, ?_, hkept, hstage, ?_⟩
  · obtain ⟨filter, heager⟩ := journal_eager ((onlooker w).greeted {})
    have hmet : ((onlooker w).acquainted intake).journal =
        ((onlooker w).greeted {}).eager.journal := by rw [acquainted]
    have hjournal : ((Connection.new {} ⟨1⟩ ⟨0⟩).after watchfulActs).journal =
        ((((onlooker w).acquainted intake).departed.greeted {}).asking [newBlock]).journal := by
      rw [hafter]
    rw [hjournal, journal_asking, journal_greeted, journal_departed, hmet, heager, journal_greeted]
    exact ⟨_, _, _, _, rfl⟩
  · have hfailed : ((Connection.new {} ⟨1⟩ ⟨0⟩).after watchfulActs).loadFilter.2 =
        .failed .notConnected := by
      rw [hafter]
      rfl
    refine ⟨hfailed, hrefused ?_ _ hfailed⟩
    rw [hafter]
    rfl

/-- The peer introduces itself and confirms, and that is all. -/
def introducedBytes : Bytes :=
  Frame.stream Network.mainnet.magic [⟨"version", offer.pieces.flatten⟩, ⟨"verack", []⟩]

theorem drain_introducedBytes : Frame.drain Network.mainnet.magic introducedBytes =
    ⟨[.version offer, .verack], none, []⟩ := by
  have hfits (p : Frame.Packet) (hp : p ∈ [⟨"version", offer.pieces.flatten⟩, ⟨"verack", []⟩]) :
      p.Fits := by
    simp only [List.mem_cons, List.not_mem_nil, or_false] at hp
    obtain rfl | rfl := hp <;> exact ⟨by decide, by decide, by decide⟩
  exact Frame.drain_whole rfl hfits (.cons offer_holds (.cons rfl .nil))

/-- All this is less than a reader takes at once. -/
theorem length_introducedBytes : introducedBytes.length = 138 := by
  have hmagic : Network.mainnet.magic.length = 4 := rfl
  rw [introducedBytes, Frame.length_stream hmagic]
  decide

/-- The handshake is over before anything is watched.  Then the peer stops taking bytes, the owner
hands over a filter, and while this waits a block is announced. -/
def heldActs : List Act :=
  [.connect default {} 0, .turn (.deliver introducedBytes none)] ++
    [.turn (.watch [someAddress]), .turn (.relink fun l => { l with room := some 0 }),
      .turn .loadFilter, .turn (.deliver newsBytes none),
      .turn (.relink fun l => { l with room := none })]

namespace Connection

/-- The store of the reader when it has taken all this. -/
def emptied : Intake := (Intake.reserve 1 {}).left introducedBytes []

/-- A handshake is over before anything is watched, and the reader waits. -/
def introduced (first : Connection) : Connection :=
  { ((first.greeted {}).recognizing offer).confirmed with task := .reading emptied }

/-- A handshake without anything to watch leaves the reader waiting, and no filter has been sent. -/
theorem after_introduction (first : Connection) (hstage : first.session.stage = .disconnected)
    (hconfig : first.config = {}) (hquiet : (first.listeners.ofKind .connection).entries = [])
    (hunwatched : first.watched = []) :
    first.after [.connect default {} 0, .turn (.deliver introducedBytes none)] =
      first.introduced := by
  have hsame := SameSettings.greeted first {}
  have hknown := SameSetup.recognizing offer (first.greeted {})
  have hread : Frame.drain first.config.network.magic introducedBytes =
      ⟨[.version offer, .verack], none, []⟩ := by
    rw [hconfig]
    exact drain_introducedBytes
  have hsome : introducedBytes ≠ [] :=
    List.ne_nil_of_length_pos (by rw [length_introducedBytes]; decide)
  have hfew : introducedBytes.length ≤ 8192 := by rw [length_introducedBytes]; decide
  have hmodern : confirmedSince ≤ min offer.version (first.greeted {}).config.protocolVersion := by
    rw [hsame.config, hconfig]
    decide
  have hunwatched' := (hknown.watched.trans hsame.watched).trans hunwatched
  have hfluent := greeted_fluent hquiet
  have hhandled : dispatch [.version offer, .verack] (first.greeted {}) =
      (((first.greeted {}).recognizing offer).confirmed, .handled) := by
    rw [dispatch_cons (hfluent.handle_version hmodern),
      dispatch_cons ((hfluent.recognizing _).handle_verack_unwatched hunwatched'), dispatch]
  exact connect_deliver hstage hquiet hread hsome hfew hhandled
    ((SameSetup.confirmed _).ending.trans hknown.ending)

theorem SameSettings.introduced (first : Connection) : first.SameSettings first.introduced := by
  have hknown := (SameSetup.recognizing offer (first.greeted {})).trans (.confirmed _)
  exact ((SameSettings.greeted first {}).trans hknown.toSameSettings).trans (.task _ _)

/-- The reader waits with an empty store, as the peer has sent whole frames. -/
theorem introduced_waits (first : Connection) : first.introduced.Waits emptied := by
  have hsame := (SameSetup.recognizing offer (first.greeted {})).trans (.confirmed _)
  exact ⟨rfl, congrArg Signals.stopping hsame.signals, hsame.inbound, hsame.ending,
    hsame.readLimit⟩

/-- The peer could be handed a filter now, as it has introduced itself and confirmed, and something
is watched. -/
theorem introduced_takesFilter (first : Connection) : first.introduced.TakesFilter := by
  have hsession (c : Connection) : (c.recognizing offer).confirmed.session = { c.session with
      stage := .ready
      services := .bloom
      userAgent := some offer.userAgent
      version := some (min offer.version c.config.protocolVersion) } := by
    simp only [Connection.confirmed, Connection.recognizing, meet, enter, written, record]
    rfl
  have hready (c : Connection) : (c.recognizing offer).confirmed.TakesFilter := by
    constructor <;> rw [hsession]
    dsimp only
    decide
  exact (hready _).reading emptied

end Connection

/-- A filter that waits behind the writer is a filter that was sent, and a request behind it that
asks for whole blocks breaks the discipline. -/
theorem not_disciplined_of_held {journal : List Entry} {filter : FilterLoad} :
    ¬ Keeps Disciplined (journal ++ [.sent (.filterLoad filter)] ++ [.received (.inv [newBlock])] ++
      [.sent (.getData [⟨.block, .zero⟩])]) := by
  intro hkept
  have hsent : FilterSent (journal ++ [.sent (.filterLoad filter)] ++
      [.received (.inv [newBlock])]) :=
    (filterSent_other rfl rfl).mpr ((filterSent_snoc rfl).mpr (.inr ⟨filter, rfl⟩))
  have hconforms := (hkept _ (.sent (.getData [⟨.block, .zero⟩])) [] rfl).1 hsent
  exact hconforms ⟨.block, .zero⟩ List.mem_cons_self rfl

/-- What comes of it, if the reader waits and the peer takes filters. -/
theorem Connection.Waits.after_held {c : Connection} {intake : Intake} (h : c.Waits intake)
    (hwriter : c.writer = some []) (hwrites : c.link.failWrites = false) (htakes : c.TakesFilter)
    (hconfig : c.config = {}) (hunloaded : c.session.filterLoaded = false)
    (hheld : intake.held = []) (hroom : newsBytes.length ≤ (intake.reserve 1).room) :
    let c' := c.after [.turn (.watch [someAddress]),
      .turn (.relink fun l => { l with room := some 0 }), .turn .loadFilter,
      .turn (.deliver newsBytes none), .turn (.relink fun l => { l with room := none })]
    c'.link.failWrites = false ∧ c'.writer = some [] ∧ ∃ filter, c'.journal =
      c.journal ++ [.watching [someAddress]] ++ [.sent (.filterLoad filter)] ++
        [.received (.inv [newBlock])] ++ [.sent (.getData [⟨.block, .zero⟩])] := by
  obtain ⟨w, hwatch⟩ := watch_someAddress c
  let watching := ({ c with watched := [w] } : Connection).record (.watching [someAddress])
  let full : Connection := { watching with link := { c.link with room := some 0 } }
  have hwatching : watching.Waits intake := ⟨h.task, h.running, h.inbound, h.ending, h.readLimit⟩
  have hfull : full.Waits intake := ⟨h.task, h.running, h.inbound, h.ending, h.readLimit⟩
  have htakes' : full.TakesFilter := ⟨htakes.stage, htakes.services⟩
  have hloaded : full.loadFilter = (full.holding, .blocked none) :=
    loadFilter_full ⟨hwrites, rfl⟩ hwriter h.task htakes' (List.cons_ne_nil _ _)
  have hsame := SameSetup.holding full
  have hread : Frame.drain full.holding.config.network.magic (intake.held ++ newsBytes) =
      ⟨[.inv [newBlock]], none, []⟩ := by
    have hconfig' : full.config = {} := hconfig
    rw [hsame.config, hconfig', hheld]
    exact drain_newsBytes
  have hsome : newsBytes ≠ [] := List.ne_nil_of_length_pos (by rw [length_newsBytes]; decide)
  have hframe : full.frame (.filterLoad full.nextFilter) ≠ [] :=
    Frame.encode_ne_nil (Network.length_magic _) _ _
  have hwanted : wanted full.holding.session.filterLoaded [newBlock] ≠ [] := by
    rw [wanted_newBlock]
    exact List.cons_ne_nil _ _
  have hisfull : full.holding.link.IsFull := ⟨hwrites, rfl⟩
  obtain ⟨task, hasked⟩ := (hsame.waits hfull).ask_over_full hisfull rfl hframe hread hsome hroom
    hwanted
  let freed : Connection := { full.holding with link := { full.holding.link with room := none } }
  have hafter : c.after [.turn (.watch [someAddress]),
      .turn (.relink fun l => { l with room := some 0 }), .turn .loadFilter,
      .turn (.deliver newsBytes none), .turn (.relink fun l => { l with room := none })] =
        { freed.asking [newBlock] with task } := by
    have hwatched : Act.apply c (.turn (.watch [someAddress])) = watching :=
      congrArg Prod.fst hwatch
    have hfilled : Act.apply watching (.turn (.relink fun l => { l with room := some 0 })) = full :=
      hwatching.relink (some 0)
    have hheld : Act.apply full (.turn .loadFilter) = full.holding := congrArg Prod.fst hloaded
    rw [after_cons, hwatched, after_cons, hfilled, after_cons, hheld]
    exact hasked
  have hunloaded' : freed.session.filterLoaded = false := hunloaded
  have hjournal : (freed.asking [newBlock]).journal = c.journal ++ [.watching [someAddress]] ++
      [.sent (.filterLoad full.nextFilter)] ++ [.received (.inv [newBlock])] ++
        [.sent (.getData [⟨.block, .zero⟩])] := by
    have hfreed : freed.journal = c.journal ++ [.watching [someAddress]] ++
        [.sent (.filterLoad full.nextFilter)] := journal_holding full
    rw [journal_asking, hunloaded', wanted_newBlock, hfreed, List.append_cons,
      if_neg Bool.false_ne_true]
  rw [hafter]
  exact ⟨hwrites, rfl, full.nextFilter, hjournal⟩

/-- **A filter that is held up is not noted in time.**  When the peer takes bytes again, the filter
goes out, and behind it a block is asked for whole. -/
theorem asked_whole_behind_a_held_filter :
    let c := (Connection.new {} ⟨1⟩ ⟨0⟩).after heldActs
    c.link.failWrites = false ∧ c.writer = some [] ∧ ¬ Keeps Disciplined c.journal := by
  let first := Connection.new {} ⟨1⟩ ⟨0⟩
  have hmet := after_introduction first rfl rfl rfl rfl
  have hconfig : first.introduced.config = {} := (SameSettings.introduced first).config
  have hroom : newsBytes.length ≤ (emptied.reserve 1).room := by
    simp only [emptied, Intake.left, List.nil_append, Intake.held_reserve, length_introducedBytes,
      length_newsBytes]
    decide
  obtain ⟨hwrites, hwriter, filter, hjournal⟩ := (introduced_waits first).after_held rfl rfl
    (introduced_takesFilter first) hconfig rfl (Intake.held_left ..) hroom
  rw [heldActs, after_append, hmet]
  refine ⟨hwrites, hwriter, ?_⟩
  rw [hjournal]
  exact not_disciplined_of_held

end LightPeer
