import LedgerFeed.Proofs.Bounded
import LedgerFeed.Proofs.Remembering
import LedgerFeed.Proofs.Summary

/-! Archived ledgers that hold an event of another ledger. Such a ledger is refused before any event
of it is offered, so what the run has offered, handed on and remembered by then is of the ledgers
below it, and of those nothing is missing. -/

namespace LedgerFeed

variable {a : Assignment} {w : World a} {history before moments : List (Moment a)}
  {next target ledger : LedgerNumber} {sink sink' : Sink} {signals : Signals}

def Moment.sequence : Moment a → List RawLedger
  | ⟨.ledgers next target, _, .ok page⟩ => inSequence target next page.ledgers
  | _ => []

def sequenceOf (history : List (Moment a)) : List RawLedger :=
  history.reverse.flatMap Moment.sequence

@[simp] theorem sequenceOf_append (later earlier : List (Moment a)) :
    sequenceOf (later ++ earlier) = sequenceOf earlier ++ sequenceOf later := by
  simp [sequenceOf]

theorem Moment.sequence_eq_nil {m : Moment a} (h : m.question.ledgers? = none) :
    m.sequence = [] := by
  obtain ⟨pending, signals, reply⟩ := m
  cases pending <;> first | rfl | cases h

theorem sequenceOf_eq_nil (h : ledgersAsked moments = []) : sequenceOf moments = [] := by
  rw [ledgersAsked, asked, List.filterMap_map, List.filterMap_eq_nil_iff] at h
  exact List.flatMap_eq_nil_iff.mpr fun m hm => Moment.sequence_eq_nil (h m hm)

theorem sequenceOf_moment {page : LedgersPage}
    (hr : w.reply before (.ledgers (a.batchRequest next target)) = .ok page) :
    sequenceOf [w.moment before (.ledgers next target)] = inSequence target next page.ledgers := by
  have hm : (w.moment before (.ledgers next target)).sequence =
      inSequence target next page.ledgers := by
    rw [World.moment, Moment.sequence.eq_def]
    exact hr ▸ rfl
  simp [sequenceOf, hm]

theorem sequenceOf_moment_of_error {failure : NodeFailure}
    (hr : w.reply before (.ledgers (a.batchRequest next target)) = .error failure) :
    sequenceOf [w.moment before (.ledgers next target)] = [] := by
  have hm : (w.moment before (.ledgers next target)).sequence = [] := by
    rw [World.moment, Moment.sequence.eq_def]
    exact hr ▸ rfl
  simp [sequenceOf, hm]

namespace Assignment

inductive BackfillOver (a : Assignment) (target : LedgerNumber) : Progress → Prop
  | reached (sink : Sink) : BackfillOver a target (a.endBackfill sink target)
  | failed (sink : Sink) (error : IngestError) : BackfillOver a target (failed sink error)

inductive ReadsAllOrFalters (a : Assignment) (target : LedgerNumber) (moments : List (Moment a))
    (sink : Sink) (ledgers : List RawLedger) : Progress → Prop
  | through {p : Progress} (h : ∀ l ∈ ledgers, ∃ raws, a.decoder.ledgerEvents l = .ok raws)
      (hp : a.BackfillOver target p) : ReadsAllOrFalters a target moments sink ledgers p
  | faltered {sink' : Sink} {error : IngestError}
      (h : a.FaltersIn moments sink ledgers sink' error) :
      ReadsAllOrFalters a target moments sink ledgers (Assignment.failed sink' error)

theorem ReadsAllOrFalters.over {ledgers : List RawLedger} {p : Progress}
    (h : a.ReadsAllOrFalters target moments sink ledgers p) : a.BackfillOver target p := by
  cases h with
  | through _ hp => exact hp
  | faltered => exact .failed ..

theorem ReadsAllOrFalters.append {later : List (Moment a)} {s : Sink}
    {taken ledgers : List RawLedger} {p : Progress}
    (h : a.ReadsAllOrFalters target moments s ledgers p)
    (hr : ∀ l ∈ taken, ∃ raws, a.decoder.ledgerEvents l = .ok raws)
    (hs : s.offered = sink.offered ++ taken.flatMap a.decoder.payload) (hm : moments ⊆ later) :
    a.ReadsAllOrFalters target later sink (taken ++ ledgers) p := by
  cases h with
  | through h hp => exact .through (fun l hl => (List.mem_append.mp hl).elim (hr l) (h l)) hp
  | faltered h => exact .faltered (h.append hr hs hm)

/-- Whatever the archive answers, a backfill reads the ledgers that it is given in sequence one
after the other, as long as nothing is wrong with them. -/
theorem sequence_leads (hw : ∀ history, (w.signals history).stop = false)
    (before : List (Moment a)) {signals : Signals} (hs : signals.stop = false) (sink : Sink)
    (hle : next ≤ target) :
    ∃ moments p, w.Leads before (a.backfill signals sink next target) moments p ∧
      Consecutive next.toNat (sequenceOf moments) ∧
      a.ReadsAllOrFalters target moments sink (sequenceOf moments) p := by
  -- every batch that goes on leaves fewer ledgers to take
  induction hn : target.toNat - next.toNat using Nat.strongRecOn
    generalizing before signals sink next with
  | ind n ih =>
  cases hr : w.reply before (.ledgers (a.batchRequest next target)) with
  | error failure =>
    have hl := @World.leads_of_ledgers_error a w before sink next target failure hr
    refine ⟨[w.moment before (.ledgers next target)],
      failed sink (.node a.archiveEndpoint failure), ?_, ?_, ?_⟩
    · rw [backfill, if_neg (UInt32.not_lt.mpr hle), if_neg (by simp [hs])]
      exact hl
    · rw [sequenceOf_moment_of_error hr]
      rfl
    · rw [sequenceOf_moment_of_error hr]
      exact .through (by simp) (.failed ..)
  | ok page =>
    have hconsecutive := consecutive_inSequence target next page.ledgers
    have hgiven {idle verdicts : List (Moment a)} {events : List ContractEvent}
        (hidle : Idle idle) (ha : asked verdicts = events.map .handle) :
        sequenceOf (idle ++ (verdicts ++ [w.moment before (.ledgers next target)])) =
          inSequence target next page.ledgers := by
      rw [sequenceOf_append, sequenceOf_append, sequenceOf_moment hr,
        sequenceOf_eq_nil (ledgersAsked_of_handle ha), sequenceOf_eq_nil hidle.ledgersAsked]
      simp
    rcases batch_leads_asked (P := fun signals => signals.stop = false) id hw before hs sink hle hr
      with ⟨idle, verdicts, events, s, p, hidle, ha, hl, hread, hend⟩ |
      ⟨verdicts, events, s, error, ha, hl, hf⟩
    · have hall := hgiven hidle ha
      cases hend with
      | gap =>
        exact ⟨_, _, hl, hall ▸ hconsecutive, .through (hall ▸ hread.1) (.failed ..)⟩
      | done =>
        exact ⟨_, _, hl, hall ▸ hconsecutive, .through (hall ▸ hread.1) (.reached _)⟩
      | more hpos hbelow measured hs' =>
        have hnext :=
          LedgerNumber.toNat_add_ofNat (Nat.lt_of_le_of_lt hbelow target.toNat_lt_size)
        obtain ⟨later, p, hl', hlater, hends⟩ := ih _ (by omega) _ hs' { s with measured }
          (UInt32.le_iff_toNat_le.mpr (hnext ▸ hbelow)) rfl
        rw [hnext] at hlater
        refine ⟨later ++ _, p, hl.trans hl', ?_, ?_⟩
        · rw [sequenceOf_append, hall]
          exact hconsecutive.append hlater
        · rw [sequenceOf_append, hall]
          exact hends.append hread.1 hread.2.offered (List.subset_append_left ..)
    · have hall := @hgiven [] verdicts events idle_nil ha
      rw [List.nil_append] at hall
      exact ⟨_, _, hl, hall ▸ hconsecutive, .faltered (hall ▸ hf)⟩

def Below (offered : List RawEvent) (ledger : LedgerNumber) : Prop :=
  ∀ raw ∈ offered, raw.ledger < ledger

/-- What was offered before a backfill goes on is of the ledgers below. Where a run chooses again
behind a backfill, that one did not lead to the last ledger that can be numbered. -/
structure Ascends (a : Assignment) (offered : List RawEvent) (next target : LedgerNumber) :
    Prop where
  below : Below offered next
  target : a.request.kind ≠ .archive → target ≠ .last

def AscendsFrom (offered : List RawEvent) : Option LedgerNumber → Prop
  | none => offered = []
  | some ledger => Below offered ledger

def AscendsIn (a : Assignment) (offered : List RawEvent) : Origin → Prop
  | .page .. => True
  | .batch b _ _ => (∀ raw ∈ offered, raw.ledger ≤ b.expected) ∧
      (a.request.kind ≠ .archive → b.target ≠ .last)

def AscendsAfter (a : Assignment) (offered : List RawEvent) : Wait → Prop
  | .betweenBatches next target => a.Ascends offered next target
  | _ => True

def AscendsAt (a : Assignment) (offered : List RawEvent) : Pending → Prop
  | .liveHealth (.choosing start) => AscendsFrom offered start
  | .archiveHealth .. => offered = []
  | .ledgers next target => a.Ascends offered next target
  | .verdict _ _ origin => a.AscendsIn offered origin
  | .pause _ wait => a.AscendsAfter offered wait
  | _ => True

def Ascending (a : Assignment) (offered : List RawEvent) : Point → Prop
  | .choosing start => AscendsFrom offered start
  | .backfilling next target => a.Ascends offered next target
  | .backfilled target => a.request.kind ≠ .archive → Below offered target.following
  | .taking b _ => a.Ascends offered b.expected b.target
  | .taken b => a.Ascends offered b.expected b.target
  | .offering origin => a.AscendsIn offered origin
  | .resting _ wait => a.AscendsAfter offered wait
  | .asking pending => a.AscendsAt offered pending
  | _ => True

section

variable {offered : List RawEvent} {point point' : Point} {pending : Pending}

theorem Below.mono (h : Below offered next) (hle : next ≤ ledger) : Below offered ledger :=
  fun raw hraw => UInt32.lt_of_lt_of_le (h raw hraw) hle

theorem AscendsFrom.below {start : Option LedgerNumber} (h : AscendsFrom offered start)
    (tip : LedgerNumber) : Below offered (start.getD tip) := by
  cases start with
  | none =>
    obtain rfl : offered = [] := h
    exact fun raw hraw => absurd hraw List.not_mem_nil
  | some => exact h

theorem AscendsIn.offer {origin : Origin} {raw : RawEvent} {rest : List RawEvent}
    (h : a.AscendsIn sink.offered origin) (ho : a.Offers origin)
    (hown : a.decoder.ledgerEvents = RawLedger.ownEvents) (hrest : origin.rest = raw :: rest)
    (hs : sink'.offered = sink.offered ++ [raw]) :
    a.AscendsIn sink'.offered (origin.withRest rest) := by
  have hledger := ho.ledger_eq hown raw (hrest ▸ List.mem_cons_self ..)
  cases origin with
  | page => exact trivial
  | batch b =>
    refine ⟨fun raw' hraw => ?_, h.2⟩
    rw [hs] at hraw
    rcases List.mem_append.mp hraw with hraw | hraw
    · exact h.1 raw' hraw
    · rw [List.mem_singleton.mp hraw, hledger]
      exact UInt32.le_refl _

theorem Hears.ascending {reply : (pending.question a).Reply}
    (h : a.Hears signals sink pending reply sink' point) (hp : a.PlacedAt pending)
    (hat : a.AscendsAt sink.offered pending) : a.Ascending sink'.offered point := by
  cases h with
  | failed | tipPast | stopped | ahead | refused | archiveAhead | within | unclosed | closed
    | events => exact trivial
  | @below start health first ha hlt =>
    refine ⟨ha.eq ▸ AscendsFrom.below hat health.latest, fun _ => ?_⟩
    exact LedgerNumber.ne_last_of_lt (targetBelow_lt hlt)
  | archiveReady =>
    have hempty : sink.offered = [] := hat
    refine ⟨fun raw hraw => ?_, fun hkind => absurd ?_ hkind⟩
    · rw [hempty] at hraw
      cases hraw
    · rw [show a.request = .archive _ _ from hp]
      rfl
  | ledgers => exact hat
  | accepted => exact hat
  | rested => exact hat

theorem Moves.ascending (h : a.Moves signals sink point sink' point') (hp : a.Placed point)
    (hown : a.decoder.ledgerEvents = RawLedger.ownEvents)
    (hat : a.Ascending sink.offered point) : a.Ascending sink'.offered point' := by
  cases h with
  | stop | choosePast | endArchive | gap | unreadable | undecodable | noProgress | followPast
    | askTip | beginPoll | askPage | hitStop | drained | endPage | nextPage | endPolls | restAtTip
    | followOn => exact trivial
  | askHealth => exact hat
  | reachTarget h =>
    exact fun hkind => hat.below.mono (LedgerNumber.le_following_of_lt h (hp.2 hkind))
  | askBatch => exact hat
  | chooseAgain h => exact hat h
  | skipLedger => exact hat
  | endLedgers => exact hat
  | read => exact ⟨fun raw hraw => UInt32.le_of_lt (hat.below raw hraw), hat.target⟩
  | duplicate hs h => exact AscendsIn.offer hat hp hown h (by simp)
  | filtered hs h => exact AscendsIn.offer hat hp hown h (by simp)
  | @askHandler origin raw rest event hs h =>
    exact AscendsIn.offer hat hp hown h (by simp)
  | @endLedger b ledgers h =>
    refine ⟨fun raw hraw => ?_, hat.2⟩
    have hle := UInt32.le_iff_toNat_le.mp (hat.1 raw hraw)
    rw [UInt32.lt_iff_toNat_lt]
    exact LedgerNumber.toNat_add_one h ▸ Nat.lt_succ_of_le hle
  | endAtLast h =>
    intro hkind
    exact absurd (LedgerNumber.eq_last_of_le (h ▸ hp.2.1)) (hat.2 hkind)
  | endBatches h hlt => exact fun _ => hat.below.mono (LedgerNumber.le_following_of_lt hlt hp.le)
  | nextBatch => exact hat
  | @proceed wait => cases wait <;> exact hat
  | pause => exact hat

theorem begin_ascending (a : Assignment) : a.Ascending a.begin.sink.offered a.begin.point := by
  rcases begin_cases a with ⟨start, stop, -, hbegin⟩ | ⟨-, ⟨-, hbegin⟩ | ⟨ledger, -, -, hbegin⟩⟩
  · rw [hbegin]
    rfl
  · rw [hbegin]
    change AscendsFrom [] a.request.start?
    cases a.request.start? with
    | none => exact rfl
    | some => exact fun raw hraw => absurd hraw List.not_mem_nil
  · rw [hbegin]
    exact trivial

/-- A backfill goes on above all that was offered before. -/
theorem Reaches.ascending (hown : a.decoder.ledgerEvents = RawLedger.ownEvents) {p : Progress}
    (h : a.Reaches history p) : a.Ascending p.sink.offered p.point :=
  (h.carries (I := fun _ sink point => a.Ascending sink.offered point) (begin_ascending a)
    (fun _ hp _ hat h => h.ascending hp hat) (fun hp _ hat h => h.ascending hp hown hat)).2

end

end Assignment

def RawLedger.StraysAt (l : RawLedger) (e : RawEvent) : Prop :=
  ∃ own others, l.events = own ++ e :: others ∧ (∀ raw ∈ own, raw.ledger = l.sequence) ∧
    e.ledger ≠ l.sequence

theorem RawLedger.StraysAt.ownEvents_eq {l : RawLedger} {e : RawEvent} (h : l.StraysAt e) :
    l.ownEvents = .error (.ledgerMismatch e.id e.ledger l.sequence) := by
  obtain ⟨own, others, hevents, hown, hstray⟩ := h
  have hfind : l.events.find? (fun raw => raw.ledger ≠ l.sequence) = some e := by
    rw [hevents, List.find?_append, List.find?_eq_none.mpr (by simpa using hown)]
    simp [hstray]
  rw [ownEvents, hfind]

theorem Consecutive.lt_of_mem {first : Nat} {xs ys : List RawLedger} {l ledger : RawLedger}
    (h : Consecutive first (xs ++ ledger :: ys)) (hl : l ∈ xs) : l.sequence < ledger.sequence := by
  obtain ⟨xs, zs, rfl⟩ := List.append_of_mem hl
  have hledger := h.sequence_eq
  rw [List.append_assoc, List.cons_append] at h
  have hl := h.sequence_eq
  rw [UInt32.lt_iff_toNat_lt, hl, hledger, List.length_append, List.length_cons]
  omega

section

variable {offers : List (RawEvent × Judgement)} {raw : RawEvent} {id : String}

theorem exists_of_mem_settledIds (h : id ∈ settledIds offers) :
    ∃ raw ∈ offers.map Prod.fst, raw.id = id := by
  obtain ⟨entry, hentry, rfl⟩ := List.mem_map.mp h
  exact ⟨entry.1, List.mem_map_of_mem (List.mem_filter.mp hentry).1, rfl⟩

theorem mem_of_mem_handed (h : raw ∈ handed offers) : raw ∈ offers.map Prod.fst := by
  obtain ⟨entry, hentry, hraw⟩ := List.mem_filterMap.mp h
  obtain ⟨event, rfl⟩ := eq_wanted_of_handed? hraw
  exact List.mem_map_of_mem hentry

end

namespace World

theorem Makes.of_mem (h : w.Makes history) {m : Moment a} (hm : m ∈ history) :
    ∃ before, m = w.moment before m.pending := by
  induction history with
  | nil => cases hm
  | cons m' earlier ih =>
    rcases List.mem_cons.mp hm with rfl | hm
    · exact ⟨earlier, h.1⟩
    · exact ih h.2 hm

theorem Unhindered.kept (hw : w.Unhindered) {p : Progress} (h : w.At history p) :
    (∀ id ∈ p.sink.recent.ids, ∃ raw ∈ p.sink.offered, raw.id = id) ∧
    ∀ m ∈ history, ∀ raw event origin, m.pending = .verdict raw event origin →
      raw ∈ p.sink.offered := by
  obtain ⟨decided, hrecalls, hoffers⟩ := h.2.recalls
  have hoffered {raw : RawEvent} (hraw : raw ∈ decided.map Prod.fst) : raw ∈ p.sink.offered := by
    rw [Sink.offered, List.mem_reverse]
    rcases hoffers with hoffers | ⟨latest, event, hoffers⟩
    · exact hoffers ▸ hraw
    · rw [hoffers]
      exact List.mem_cons_of_mem _ hraw
  constructor
  · intro id hid
    rw [hrecalls.ids] at hid
    obtain ⟨raw, hraw, rfl⟩ := exists_of_mem_settledIds (List.mem_of_mem_take hid)
    exact ⟨raw, hoffered hraw, rfl⟩
  · rintro ⟨pending, signals, reply⟩ hm raw event origin rfl
    obtain ⟨before, heq⟩ := h.1.of_mem hm
    obtain rfl : reply = .accepted := by
      have hreply := (Moment.mk.inj heq).2.2
      exact (eq_of_heq hreply).trans (hw.accepts before event)
    refine hoffered (mem_of_mem_handed ?_)
    rw [hrecalls.accepted]
    exact List.mem_filterMap.mpr ⟨_, hm, rfl⟩

end World

namespace Assignment

theorem ReadsAllOrFalters.refused (hw : w.Unhindered) {p q : Progress}
    (hl : w.Leads before q moments p) {clean rest : List RawLedger} {stray : RawLedger}
    {cause : DecodeError}
    (h : a.ReadsAllOrFalters target moments sink (clean ++ stray :: rest) p)
    (hclean : ∀ l ∈ clean, a.decoder.Clean l)
    (hstray : a.decoder.ledgerEvents stray = .error cause) :
    ∃ sink', p = failed sink' (.decode stray.sequence cause) ∧
      sink'.offered = sink.offered ++ clean.flatMap a.decoder.payload := by
  cases h with
  | through h =>
    obtain ⟨raws, hread⟩ := h stray (List.mem_append_right _ (List.mem_cons_self ..))
    rw [hstray] at hread
    cases hread
  | @faltered sink' error h =>
    obtain ⟨done, ledger, others, part, heq, hdone, ho, hfault⟩ := h
    have hexact (hledger : ledger = stray) (hsame : done = clean) :
        ∃ s, Assignment.failed sink' error = failed s (.decode stray.sequence cause) ∧
          s.offered = sink.offered ++ clean.flatMap a.decoder.payload := by
      subst hledger hsame
      cases hfault with
      | unreadable h =>
        rw [hstray] at h
        exact ⟨sink', by rw [Except.error.inj h], by simpa using ho⟩
      | event h =>
        rw [hstray] at h
        cases h
    -- the run fails neither behind the ledger that cannot be read nor before it
    rcases List.append_eq_append_iff.mp heq with
      ⟨between, hdone', hrest⟩ | ⟨between, hbefore, hrest⟩
    · cases between with
      | nil => exact hexact (List.cons.inj hrest).1.symm (by simpa using hdone')
      | cons l between =>
        obtain ⟨rfl, -⟩ := List.cons.inj hrest
        obtain ⟨raws, hread⟩ := hdone stray (by simp [hdone'])
        rw [hstray] at hread
        cases hread
    · cases between with
      | nil => exact hexact (List.cons.inj hrest).1 (by simpa using hbefore.symm)
      | cons l between =>
        obtain ⟨rfl, -⟩ := List.cons.inj hrest
        have hf : a.FaltersIn moments sink clean sink' error :=
          ⟨done, ledger, between, part, hbefore, hdone, ho, hfault⟩
        exact absurd hf (hw.not_faltersIn hl hclean)

/-- A run refused a ledger of the archive whole. What it had offered before the backfill was
followed by the events of the clean ledgers below, and nothing else was handed on or remembered. -/
structure Refuses (a : Assignment) (before moments : List (Moment a)) (sink sink' : Sink)
    (next : LedgerNumber) (clean : List RawLedger) (stray : RawLedger) : Prop where
  position : Consecutive next.toNat (clean ++ [stray])
  offered : sink'.offered = sink.offered ++ clean.flatMap RawLedger.events
  earlier : ∃ first, a.firstLedger? before = some first ∧
    ∀ ledger, first ≤ ledger → ledger < next →
      ∃ raws, a.Processed before ledger raws ∧ raws <:+: sink.offered
  below : ∀ raw ∈ sink'.offered, raw.ledger < stray.sequence
  handed : ∀ m ∈ moments ++ before, ∀ raw event origin, m.pending = .verdict raw event origin →
    raw ∈ sink'.offered
  remembered : ∀ id ∈ sink'.recent.ids, ∃ raw ∈ sink'.offered, raw.id = id

end Assignment

/-- From wherever a run asks the archive for ledgers, its backfill comes to an end. If the ledgers
that the archive gives in sequence are clean up to one with an event that claims another ledger, the
run fails with the first such event, and it has refused that ledger whole: it offered the events of
the ledgers before, and handed on and remembered no others. -/
theorem stray_refused (hw : w.Unhindered) (hown : a.decoder.ledgerEvents = RawLedger.ownEvents)
    (hcheck : a.request.check = .ok ()) (hat : w.At before (.waiting sink (.ledgers next target))) :
    ∃ moments p, w.At (moments ++ before) p ∧ a.BackfillOver target p ∧
      ∀ clean stray rest e, sequenceOf moments = clean ++ stray :: rest →
        (∀ l ∈ clean, a.decoder.Clean l) → stray.StraysAt e →
        ∃ sink', p = Assignment.failed sink' (.decode stray.sequence
            (.ledgerMismatch e.id e.ledger stray.sequence)) ∧
          a.Refuses before moments sink sink' next clean stray := by
  have hle : next ≤ target := hat.2.placed.2
  let running : Signals := ⟨false, []⟩
  have hrunning : running.stop = false := rfl
  obtain ⟨moments, p, hl, hconsecutive, hends⟩ :=
    Assignment.sequence_leads hw.runs before hrunning sink hle
  rw [Assignment.backfill, if_neg (UInt32.not_lt.mpr hle), if_neg (by simp)] at hl
  refine ⟨moments, p, hat.leads hl, hends.over, fun clean stray rest e hsplit hclean he => ?_⟩
  rw [hsplit] at hconsecutive hends
  obtain ⟨sink', rfl, ho⟩ := hends.refused hw hl hclean (hown ▸ he.ownEvents_eq)
  have hpayload : ∀ l ∈ clean, a.decoder.payload l = l.events ∧
      ∀ raw ∈ l.events, raw.ledger = l.sequence := by
    intro l hl
    obtain ⟨raws, hread, -⟩ := hclean l hl
    rw [hown] at hread
    obtain ⟨rfl, hledger⟩ := Assignment.ownEvents_eq_ok hread
    exact ⟨Decoder.payload_of_ok (hown ▸ hread), hledger⟩
  have hoffered : sink'.offered = sink.offered ++ clean.flatMap RawLedger.events := by
    rw [ho, List.flatMap_def, List.flatMap_def,
      List.map_congr_left fun l hl => (hpayload l hl).1]
  obtain ⟨hremembered, hhanded⟩ := hw.kept (hat.leads hl)
  obtain ⟨first, hfirst, -, hprocessed⟩ := (hat.2.accounted hcheck).past.processed
  refine ⟨sink', rfl, ?_, hoffered, ⟨first, hfirst, hprocessed⟩, fun raw hraw => ?_, hhanded,
    hremembered⟩
  · rw [List.append_cons] at hconsecutive
    exact hconsecutive.of_append.1
  · rw [hoffered] at hraw
    rcases List.mem_append.mp hraw with hraw | hraw
    · have hlt : raw.ledger < next := (hat.2.ascending hown).below raw hraw
      have hge : next ≤ stray.sequence := by
        rw [UInt32.le_iff_toNat_le, hconsecutive.sequence_eq]
        exact Nat.le_add_right ..
      exact UInt32.lt_of_lt_of_le hlt hge
    · obtain ⟨l, hl, hraw⟩ := List.mem_flatMap.mp hraw
      rw [(hpayload l hl).2 raw hraw]
      exact hconsecutive.lt_of_mem hl

open Rehearsal

def ownLedger : RawLedger :=
  ⟨5, "", "", "", [sampleEvent 5 "a"]⟩

def mixedLedger : RawLedger :=
  ⟨6, "", "", "", [sampleEvent 6 "b", sampleEvent 5 "c", sampleEvent 6 "d"]⟩

def mixedNode : Node :=
  { risingNode with ledgers := [ownLedger, mixedLedger, ⟨7, "", "", "", []⟩] }

def mixedRun : Assignment :=
  { risingRun with
    request := .archive 5 7
    archive := some "archive" }

def mixedBeginning : List (Moment mixedRun) :=
  [⟨.archiveHealth 5 7, ⟨false, []⟩, .ok mixedNode.window.health⟩]

def mixedHistory : List (Moment mixedRun) :=
  [⟨.verdict (sampleEvent 5 "a") ⟨"a", .contract, 5, "", some "C", [], "", true, ""⟩
      (.batch ⟨5, 7, 5, 7, []⟩ [] [mixedLedger]), ⟨false, []⟩, .accepted⟩,
    ⟨.ledgers 5 7, ⟨false, []⟩, .ok ⟨[ownLedger, mixedLedger], 7, 5⟩⟩]

theorem mixedLedger_straysAt : mixedLedger.StraysAt (sampleEvent 5 "c") :=
  ⟨[sampleEvent 6 "b"], [sampleEvent 6 "d"], rfl, by decide, by decide⟩

theorem mixed_refused :
    ∃ moments sink sink', (Node.world mixedRun mixedNode mixedNode []).At
        (moments ++ mixedBeginning)
        (Assignment.failed sink' (.decode 6 (.ledgerMismatch "c" 5 6))) ∧
      mixedRun.Refuses mixedBeginning moments sink sink' 5 [ownLedger] mixedLedger := by
  have hhealth := Assignment.Reaches.replayed (a := mixedRun)
    (mixedBeginning.reverse.map Moment.answer) rfl
  have hverdict := Assignment.Reaches.replayed (a := mixedRun)
    ((mixedHistory ++ mixedBeginning).reverse.map Moment.answer) rfl
  have hmakes : (Node.world mixedRun mixedNode mixedNode []).Makes
      (mixedHistory ++ mixedBeginning) := ⟨rfl, rfl, rfl, trivial⟩
  obtain ⟨moments, p, hat, hover, hrefuses⟩ := @stray_refused mixedRun
    (Node.world mixedRun mixedNode mixedNode []) mixedBeginning 5 7 _
    Node.world_undisturbed.unhindered rfl rfl ⟨⟨rfl, trivial⟩, hhealth⟩
  -- the run has only one end in this world
  have hended : ∃ sink result, p = .ended sink result := by
    cases hover with
    | reached sink => exact ⟨_, _, rfl⟩
    | failed sink error => exact ⟨_, _, rfl⟩
  obtain ⟨sink, result, rfl⟩ := hended
  have heq : moments ++ mixedBeginning = mixedHistory ++ mixedBeginning :=
    World.history_eq_of_ended hat.2 hat.1 hverdict hmakes
  obtain rfl := List.append_cancel_right heq
  have hclean : ∀ l ∈ [ownLedger], mixedRun.decoder.Clean l := by
    intro l hl
    obtain rfl := List.mem_singleton.mp hl
    refine ⟨_, rfl, fun raw hraw => ?_⟩
    obtain rfl := List.mem_singleton.mp hraw
    exact ⟨_, rfl⟩
  obtain ⟨sink', hp, h⟩ := hrefuses [ownLedger] mixedLedger [] (sampleEvent 5 "c") rfl hclean
    mixedLedger_straysAt
  exact ⟨mixedHistory, _, sink', hp ▸ hat, h⟩

end LedgerFeed
