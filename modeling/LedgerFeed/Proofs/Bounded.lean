import LedgerFeed.Proofs.Live

/-! Runs over a range of closed ledgers. As long as every poll comes to an end, such a run polls one
ledger after the other and ends behind the last one, unless that is the last ledger that can be
numbered: it follows itself, so it is polled forever. -/

namespace LedgerFeed

def Question.opened? : Question → Option LedgerNumber
  | events request => request.start
  | _ => none

section

variable {a : Assignment}

def opened (history : List (Moment a)) : List LedgerNumber :=
  (asked history).filterMap Question.opened?

@[simp] theorem opened_append (later earlier : List (Moment a)) :
    opened (later ++ earlier) = opened earlier ++ opened later := by
  simp [opened]

theorem opened_moment (w : World a) (before : List (Moment a)) (poll : Poll) :
    opened [w.moment before (.events poll)] = poll.request.start.toList := by
  change List.filterMap Question.opened? [.events poll.request] = _
  cases h : poll.request.start <;> simp [Question.opened?, h]

theorem opened_of_handle {moments : List (Moment a)} {events : List ContractEvent}
    (h : asked moments = events.map .handle) : opened moments = [] := by
  simp [opened, h, Question.opened?]

theorem Idle.opened {moments : List (Moment a)} (h : Idle moments) : opened moments = [] := by
  apply List.filterMap_eq_nil_iff.mpr
  intro q hq
  obtain ⟨_, rfl⟩ := h q hq
  rfl

theorem length_opened_le (history : List (Moment a)) :
    (opened history).length ≤ history.length := by
  refine Nat.le_trans (List.length_filterMap_le ..) ?_
  simp [asked]

end

namespace LedgerNumber

def through (first last : LedgerNumber) : List LedgerNumber :=
  (List.range' first.toNat (last.toNat + 1 - first.toNat)).map UInt32.ofNat

theorem through_self (l : LedgerNumber) : l.through l = [l] := by
  unfold through
  rw [Nat.add_sub_cancel_left]
  simp

theorem through_cons {first last : LedgerNumber} (h : first < last) :
    first.through last = first :: first.following.through last := by
  have hlt := UInt32.lt_iff_toNat_lt.mp h
  unfold through
  rw [toNat_following_of_ne (ne_last_of_lt h),
    show last.toNat + 1 - first.toNat = (last.toNat + 1 - (first.toNat + 1)) + 1 by omega,
    List.range'_succ, List.map_cons, UInt32.ofNat_toNat]

end LedgerNumber

variable {a : Assignment} {w : World a} {start stop ledger : LedgerNumber}

namespace World

def At (w : World a) (history : List (Moment a)) (p : Progress) : Prop :=
  w.Makes history ∧ a.Reaches history p

def Turns (w : World a) (next history : List (Moment a)) : Prop :=
  ∃ sink sink' poll page cursor, w.At history (.waiting sink (.events poll)) ∧
    w.reply history (.events poll.request) = .ok page ∧ page.nextCursor? = some cursor ∧
    w.At next (.waiting sink' (.events { poll with request := poll.request.continued cursor })) ∧
    ∃ between, next = between ++ w.moment history (.events poll) :: history ∧
      opened between = []

/-- The live node is healthy at first and retains the range, which is closed; it answers all polls,
and none of them goes on forever. The handler accepts everything, and nobody stops the run. -/
structure Answers (w : World a) (start stop : LedgerNumber) : Prop where
  runs : ∀ history, (w.signals history).stop = false
  accepts : ∀ history event, w.reply history (.handle event) = .accepted
  health : ∃ health, w.reply [] (.health .live) = .ok health ∧ health.healthy = true ∧
    health.oldestAvailable a.config.retentionMargin ≤ start ∧ stop ≤ health.latest
  pages : ∀ history sink poll, w.At history (.waiting sink (.events poll)) →
    ∃ page, w.reply history (.events poll.request) = .ok page
  finite : WellFounded w.Turns

/-- The run fails at an event that the live node returned and that cannot be decoded. -/
def FailsToDecode (w : World a) : Prop :=
  ∃ before sink poll page raw cause, w.At before (.waiting sink (.events poll)) ∧
    w.reply before (.events poll.request) = .ok page ∧ raw ∈ page.events ∧
    a.decoder.decode raw = .error cause ∧
    ∃ later sink', w.At (later ++ before) (Assignment.failed sink' (.decode raw.ledger cause))

def Polls (w : World a) (before : List (Moment a)) (ledgers : List LedgerNumber)
    (P : Progress → Prop) : Prop :=
  ∃ later p, w.At (later ++ before) p ∧ opened later = ledgers ∧ P p

variable {before moments : List (Moment a)} {p q : Progress} {sink : Sink} {poll : Poll}
  {ledgers ledgers' : List LedgerNumber} {P Q : Progress → Prop} {signals : Signals}

theorem At.leads (h : w.At before p) (hl : w.Leads before p moments q) :
    w.At (moments ++ before) q :=
  ⟨hl.makes h.1, hl.reaches h.2⟩

theorem Polls.of_append {later : List (Moment a)} (h : w.Polls (later ++ before) ledgers P) :
    w.Polls before (opened later ++ ledgers) P := by
  obtain ⟨after, p, hat, rfl, hp⟩ := h
  refine ⟨after ++ later, p, ?_, opened_append .., hp⟩
  rwa [List.append_assoc]

theorem Polls.trans (h : w.Polls before ledgers P)
    (h' : ∀ {later p}, w.At later p → P p → w.FailsToDecode ∨ w.Polls later ledgers' Q) :
    w.FailsToDecode ∨ w.Polls before (ledgers ++ ledgers') Q := by
  obtain ⟨later, p, hat, rfl, hp⟩ := h
  rcases h' hat hp with hundecodable | hpolls
  · exact .inl hundecodable
  · exact .inr hpolls.of_append

theorem Answers.wait_leads (h : w.Answers start stop) (hs : signals.stop = false)
    {milliseconds : UInt64} {wait : Wait}
    (hat : w.At before (a.wait signals sink milliseconds wait)) :
    ∃ moments signals', signals'.stop = false ∧ opened moments = [] ∧
      w.At (moments ++ before) (a.proceed signals' sink wait) := by
  obtain ⟨moments, signals', hs', hl, hidle⟩ :=
    World.wait_leads (P := fun signals => signals.stop = false) id h.runs hs before sink
      milliseconds wait
  exact ⟨moments, signals', hs', hidle.opened, hat.leads hl⟩

theorem Unhindered.page_leads (h : w.Unhindered) {page : EventsPage}
    (hat : w.At before (.waiting sink (.events poll)))
    (hr : w.reply before (.events poll.request) = .ok page) :
    w.FailsToDecode ∨ ∃ moments earlier sink', ∃ events : List ContractEvent,
      asked moments = events.map .handle ∧
        w.At (moments ++ w.moment before (.events poll) :: before)
          (a.endPage (w.signals earlier) sink' poll page) := by
  have hevents {moments : List (Moment a)} {p : Progress}
      (hl : w.Leads (w.moment before (.events poll) :: before)
        (a.offerPage (w.signals before) (sink.measure (.page .live)) poll page
          (page.ofLedger poll.ledger)) moments p) :
      w.At (moments ++ w.moment before (.events poll) :: before) p := by
    have hat' := hat.leads (leads_events hr hl)
    rwa [List.append_assoc, List.singleton_append] at hat'
  rcases offerThen_leads h.runs_of_signals (fun history => ⟨history, rfl⟩)
      (continues_page poll page) (page.ofLedger poll.ledger)
      (w.moment before (.events poll) :: before) ⟨before, rfl⟩ (sink.measure (.page .live)) with
    ⟨moments, signals, sink', events, ⟨earlier, rfl⟩, hl, -, ha⟩ |
    ⟨moments, sink', error, events, hl, ⟨taken, raw, rest, hraws, -, hfault⟩, -⟩
  · exact .inr ⟨moments, earlier, sink', events, ha, hevents hl⟩
  · have hraw : raw ∈ page.ofLedger poll.ledger := by simp [hraws]
    have hraw : raw ∈ page.events :=
      ((List.filter_sublist ..).trans (List.takeWhile_sublist _)).subset hraw
    obtain ⟨cause, hcause, rfl⟩ := h.cause_of_fault hl hfault
    refine .inl ⟨before, sink, poll, page, raw, cause, hat, hr, hraw, hcause, ?_⟩
    refine ⟨moments ++ [w.moment before (.events poll)], sink', ?_⟩
    rw [List.append_assoc]
    exact hevents hl

theorem Answers.unhindered (h : w.Answers start stop) : w.Unhindered :=
  ⟨h.runs, h.accepts⟩

theorem Answers.page_leads (h : w.Answers start stop)
    (hat : w.At before (.waiting sink (.events poll))) :
    ∃ page, w.reply before (.events poll.request) = .ok page ∧ (w.FailsToDecode ∨
      ∃ moments signals sink', signals.stop = false ∧ opened moments = [] ∧
        w.At (moments ++ w.moment before (.events poll) :: before)
          (a.endPage signals sink' poll page)) := by
  obtain ⟨page, hr⟩ := h.pages before sink poll hat
  refine ⟨page, hr, (h.unhindered.page_leads hat hr).imp id ?_⟩
  rintro ⟨moments, earlier, sink', events, ha, hat'⟩
  exact ⟨moments, _, sink', h.runs earlier, opened_of_handle ha, hat'⟩

theorem Unhindered.begin_follows (h : w.Unhindered)
    (hrequest : a.request = .live (some start) (some stop)) (hle : start ≤ stop) {health : Health}
    (hr : w.reply [] (.health .live) = .ok health) (hhealthy : health.healthy = true)
    (holdest : health.oldestAvailable a.config.retentionMargin ≤ start)
    (hlatest : start ≤ health.latest) :
    w.At [w.moment [] (.liveHealth (.choosing (some start)))]
      (a.follow (w.signals []) (.ofCapacity a.config.dedupCapacity .live) start health.latest) := by
  have hin : a.pastStop start = false := by
    rw [Assignment.pastStop, hrequest]
    simpa [RunRequest.stop?] using hle
  have hbegin : a.begin = .waiting (.ofCapacity a.config.dedupCapacity .live)
      (.liveHealth (.choosing (some start))) := by
    rw [Assignment.begin, hrequest]
    simp only [Assignment.choose]
    rw [if_neg (by simp [hin])]
  have hl := leads_moment w [] (.ofCapacity a.config.dedupCapacity .live)
    (.liveHealth (.choosing (some start)))
  rw [← hbegin] at hl
  have hat : w.At [] a.begin := ⟨trivial, .begin⟩
  have hreply : w.reply [] ((Pending.liveHealth (.choosing (some start))).question a) =
      .ok health := hr
  have hat' := hat.leads hl
  simp only [hreply, Assignment.resume, Assignment.withHealth, if_pos hhealthy, Assignment.beginAt,
    Option.getD_some, Option.isNone_some, Bool.false_and, Bool.false_eq_true, if_false, h.runs [],
    if_neg (UInt32.not_lt.mpr hlatest), if_pos holdest] at hat'
  exact hat'

end World

namespace Assignment

def Opening (a : Assignment) (stop ledger : LedgerNumber) (p : Progress) : Prop :=
  ∃ sink latest filters, stop ≤ latest ∧
    p = .waiting sink (.events ⟨ledger, latest, .ofLedger ledger filters a.config.pageSize⟩)

/-- What a run comes to once it has polled a ledger: its end behind the range, or the next poll. The
last ledger that can be numbered comes next to itself. -/
inductive Onward (a : Assignment) (stop ledger : LedgerNumber) : Progress → Prop
  | behind {sink : Sink} (heq : ledger = stop) (hne : stop ≠ .last) :
      Onward a stop ledger (completed sink ledger.following)
  | next {p : Progress} (hle : ledger.following ≤ stop)
      (h : a.Opening stop ledger.following p) : Onward a stop ledger p

theorem follow_eq (hrequest : a.request.stop? = some stop) {signals : Signals}
    (hs : signals.stop = false) {latest : LedgerNumber} (hle : ledger ≤ stop)
    (hlatest : stop ≤ latest) (sink : Sink) :
    a.follow signals sink ledger latest = .waiting (sink.measure .poll)
      (.events ⟨ledger, latest, .ofLedger ledger signals.filters a.config.pageSize⟩) := by
  have hin : a.pastStop ledger = false := by
    rw [pastStop_eq hrequest]
    simpa using hle
  have hclosed : ¬latest < ledger := UInt32.not_lt.mpr (UInt32.le_trans hle hlatest)
  rw [follow, if_neg (by simp [hin]), if_neg (by simp [hs]), if_neg hclosed, beginPoll, requestPage,
    if_neg (by simp [hs])]

theorem follow_opens (hrequest : a.request.stop? = some stop) {signals : Signals}
    (hs : signals.stop = false) {latest : LedgerNumber} (hle : ledger ≤ stop)
    (hlatest : stop ≤ latest) (sink : Sink) :
    a.Opening stop ledger (a.follow signals sink ledger latest) :=
  ⟨_, latest, signals.filters, hlatest, follow_eq hrequest hs hle hlatest sink⟩

theorem runsPast_last (page : EventsPage) : page.runsPast .last = false := by
  refine List.any_eq_false.mpr fun raw _ hlt => ?_
  exact LedgerNumber.ne_last_of_lt (of_decide_eq_true hlt) rfl

theorem Onward.opens_last {p : Progress} (h : a.Onward .last .last p) :
    a.Opening .last .last p := by
  cases h with
  | behind _ hne => exact absurd rfl hne
  | next _ h => exact h

theorem Onward.behind_of_ne_last {p : Progress} (h : a.Onward stop stop p) (hne : stop ≠ .last) :
    ∃ sink, p = completed sink stop.following := by
  cases h with
  | @behind sink => exact ⟨sink, rfl⟩
  | next hle => exact absurd (LedgerNumber.lt_following hne) (UInt32.not_lt.mpr hle)

end Assignment

namespace World

variable {before : List (Moment a)} {p : Progress} {sink : Sink} {poll : Poll} {signals : Signals}

theorem Answers.endPoll_polls (h : w.Answers start stop) (hrequest : a.request.stop? = some stop)
    (hs : signals.stop = false) (hle : poll.ledger ≤ stop) (hlatest : stop ≤ poll.latest)
    {reported : LedgerNumber} (hat : w.At before (a.endPoll signals sink poll reported)) :
    w.Polls before [] (a.Onward stop poll.ledger) := by
  have hlatest' : stop ≤ max poll.latest reported := LedgerNumber.le_max_of_le hlatest reported
  rw [Assignment.endPoll, pastStop_eq hrequest] at hat
  by_cases hpast : stop < poll.ledger.following
  · have heq := UInt32.le_antisymm hle (LedgerNumber.le_of_lt_following hpast)
    rw [if_pos (decide_eq_true hpast)] at hat
    exact ⟨[], _, hat, rfl, .behind heq (LedgerNumber.ne_last_of_lt hpast)⟩
  · have hnext := UInt32.not_lt.mp hpast
    rw [if_neg (by simpa using hnext)] at hat
    split at hat
    · obtain ⟨pause, signals', hs', hquiet, hat'⟩ := h.wait_leads hs hat
      exact ⟨pause, _, hat', hquiet,
        .next hnext (Assignment.follow_opens hrequest hs' hnext hlatest' _)⟩
    · exact ⟨[], _, hat, rfl,
        .next hnext (Assignment.follow_opens hrequest hs hnext hlatest' _)⟩

theorem Answers.endPage_polls (h : w.Answers start stop) (hrequest : a.request.stop? = some stop)
    (hs : signals.stop = false) (hle : poll.ledger ≤ stop) (hlatest : stop ≤ poll.latest)
    {page : EventsPage} (hat : w.At before (a.endPage signals sink poll page)) :
    w.Polls before [] (a.Onward stop poll.ledger) ∨
      ∃ moments cursor, page.nextCursor? = some cursor ∧ opened moments = [] ∧
        w.At (moments ++ before)
          (.waiting sink (.events { poll with request := poll.request.continued cursor })) := by
  rw [Assignment.endPage] at hat
  split at hat
  · rename_i hpast
    split at hat
    · rename_i hlast
      have heq : stop = poll.ledger := Option.some.inj (hrequest.symm.trans hlast)
      have hne : stop ≠ .last := by
        rintro rfl
        rw [← heq, Assignment.runsPast_last] at hpast
        cases hpast
      exact .inl ⟨[], _, hat, rfl, .behind heq.symm hne⟩
    · exact .inl (h.endPoll_polls hrequest hs hle hlatest hat)
  split at hat
  · rename_i cursor hcursor
    obtain ⟨pause, signals', hs', hquiet, hat'⟩ := h.wait_leads hs hat
    rw [Assignment.proceed, Assignment.requestPage, if_neg (by simp [hs'])] at hat'
    exact .inr ⟨pause, cursor, hcursor, hquiet, hat'⟩
  · exact .inl (h.endPoll_polls hrequest hs hle hlatest hat)

theorem Answers.poll_polls (h : w.Answers start stop) (hrequest : a.request.stop? = some stop)
    (hle : poll.ledger ≤ stop) (hlatest : stop ≤ poll.latest)
    (hat : w.At before (.waiting sink (.events poll))) :
    w.FailsToDecode ∨ w.Polls before poll.request.start.toList (a.Onward stop poll.ledger) := by
  -- no poll goes on forever, so the pages that are still to come can be counted on
  induction before using h.finite.induction generalizing sink poll with
  | h before ih =>
  let m := w.moment before (.events poll)
  obtain ⟨page, hr, hundecodable | ⟨moments, signals, sink', hs, hquiet, hend⟩⟩ := h.page_leads hat
  · exact .inl hundecodable
  have hback {P : Progress → Prop} (hpolls : w.Polls (moments ++ m :: before) [] P) :
      w.Polls before poll.request.start.toList P := by
    rw [List.append_cons] at hpolls
    simpa [hquiet, m, opened_moment] using hpolls.of_append
  rcases h.endPage_polls hrequest hs hle hlatest hend with
    hpolls | ⟨pause, cursor, hcursor, hidle, hwait⟩
  · exact .inr (hback hpolls)
  have hturns : w.Turns (pause ++ (moments ++ m :: before)) before := by
    refine ⟨sink, sink', poll, page, cursor, hat, hr, hcursor, hwait, pause ++ moments, ?_, ?_⟩
    · exact (List.append_assoc ..).symm
    · rw [opened_append, hquiet, hidle, List.append_nil]
  rcases @ih _ hturns sink' { poll with request := poll.request.continued cursor } hle hlatest
    hwait with hundecodable | hpolls
  · exact .inl hundecodable
  · have hpolls' := hpolls.of_append
    rw [hidle] at hpolls'
    exact .inr (hback hpolls')

theorem Answers.range_polls (h : w.Answers start stop) (hrequest : a.request.stop? = some stop)
    (hle : ledger ≤ stop) (hat : w.At before p) (hopen : a.Opening stop ledger p) :
    w.FailsToDecode ∨ w.Polls before (ledger.through stop) (a.Onward stop stop) := by
  induction hleft : stop.toNat - ledger.toNat using Nat.strongRecOn
    generalizing before p ledger with
  | ind n ih =>
  obtain ⟨sink, latest, filters, hlatest, rfl⟩ := hopen
  rcases h.poll_polls hrequest hle hlatest hat with hundecodable | hpolls
  · exact .inl hundecodable
  change w.Polls before [ledger] (a.Onward stop ledger) at hpolls
  by_cases hlt : ledger < stop
  · rw [LedgerNumber.through_cons hlt, ← List.singleton_append]
    refine hpolls.trans fun hat' honward => ?_
    cases honward with
    | behind heq => exact absurd (heq ▸ hlt) (UInt32.lt_irrefl _)
    | next hnext hopen' =>
      have hlt' := UInt32.lt_iff_toNat_lt.mp hlt
      have hsucc := LedgerNumber.toNat_following_of_ne (LedgerNumber.ne_last_of_lt hlt)
      exact ih _ (by omega) hnext hat' hopen' rfl
  · obtain rfl := UInt32.le_antisymm hle (UInt32.not_lt.mp hlt)
    rw [LedgerNumber.through_self]
    exact .inr hpolls

theorem Answers.last_polls (h : w.Answers start .last) (hrequest : a.request.stop? = some .last)
    (hat : w.At before p) (hopen : a.Opening .last .last p) (n : Nat) :
    w.FailsToDecode ∨ w.Polls before (List.replicate n .last) (a.Opening .last .last) := by
  induction n generalizing before p with
  | zero => exact .inr ⟨[], p, hat, rfl, hopen⟩
  | succ n ih =>
    rcases h.range_polls hrequest (UInt32.le_refl _) hat hopen with hundecodable | hpolls
    · exact .inl hundecodable
    · rw [LedgerNumber.through_self] at hpolls
      rw [List.replicate_succ, ← List.singleton_append]
      exact hpolls.trans fun hat' honward => ih hat' honward.opens_last

theorem Answers.begin_polls (h : w.Answers start stop)
    (hrequest : a.request = .live (some start) (some stop)) (hle : start ≤ stop) :
    w.Polls [] [] (a.Opening stop start) := by
  obtain ⟨health, hr, hhealthy, holdest, hlatest⟩ := h.health
  have hstop : a.request.stop? = some stop := by
    rw [hrequest]
    rfl
  exact ⟨[w.moment [] (.liveHealth (.choosing (some start)))], _,
    h.unhindered.begin_follows hrequest hle hr hhealthy holdest (UInt32.le_trans hle hlatest), rfl,
    Assignment.follow_opens hstop (h.runs []) hle hlatest _⟩

theorem Answers.run_polls (h : w.Answers start stop)
    (hrequest : a.request = .live (some start) (some stop)) (hle : start ≤ stop) :
    w.FailsToDecode ∨ w.Polls [] (start.through stop) (a.Onward stop stop) := by
  have hstop : a.request.stop? = some stop := by
    rw [hrequest]
    rfl
  rw [← List.nil_append (start.through stop)]
  exact (h.begin_polls hrequest hle).trans fun hat hopen => h.range_polls hstop hle hat hopen

theorem Answers.ends_behind (h : w.Answers start stop)
    (hrequest : a.request = .live (some start) (some stop)) (hle : start ≤ stop)
    (hne : stop ≠ .last) :
    w.FailsToDecode ∨ ∃ history delivered, w.Ends history ⟨.completed, delivered, stop + 1⟩ ∧
      opened history = start.through stop := by
  rcases h.run_polls hrequest hle with hundecodable | ⟨history, p, hat, hopened, honward⟩
  · exact .inl hundecodable
  rw [List.append_nil] at hat
  obtain ⟨sink, rfl⟩ := honward.behind_of_ne_last hne
  rw [LedgerNumber.following_eq hne] at hat
  exact .inr ⟨history, sink.delivered, ⟨sink, _, hat.1, hat.2, rfl⟩, hopened⟩

theorem Answers.goes_on (h : w.Answers start .last)
    (hrequest : a.request = .live (some start) (some .last)) (hle : start ≤ .last) (n : Nat) :
    w.FailsToDecode ∨ ∃ history p, w.At history p ∧ a.Opening .last .last p ∧
      opened history = start.through .last ++ List.replicate n .last := by
  have hstop : a.request.stop? = some .last := by
    rw [hrequest]
    rfl
  rcases h.run_polls hrequest hle with hundecodable | hpolls
  · exact .inl hundecodable
  rcases hpolls.trans fun hat honward => h.last_polls hstop hat honward.opens_last n with
    hundecodable | ⟨history, p, hat, hopened, hopen⟩
  · exact .inl hundecodable
  rw [List.append_nil] at hat
  exact .inr ⟨history, p, hat, hopen, hopened⟩

section

variable {history : List (Moment a)} {summary : Summary}

theorem Ends.length_lt {pending : Pending} (h : w.Ends history summary)
    (hat : w.At before (.waiting sink pending)) : before.length < history.length := by
  obtain ⟨sink', exit, hm, hr, -⟩ := h
  refine Nat.lt_of_not_le fun hlen => ?_
  obtain rfl := eq_of_ended hr hm hat.2 hat.1 hlen
  exact Progress.noConfusion (hr.unique hat.2)

theorem FailsToDecode.not_ends (h : w.FailsToDecode) : ¬w.Ends history summary := by
  rintro ⟨sink, exit, hm, hr, -⟩
  obtain ⟨before, _, _, _, raw, cause, -, -, -, -, later, sink', hm', hr'⟩ := h
  obtain rfl := history_eq_of_ended hr hm hr' hm'
  cases hr.unique hr'

theorem Answers.never_ends (h : w.Answers start .last)
    (hrequest : a.request = .live (some start) (some .last)) (hle : start ≤ .last) :
    ¬w.Ends history summary := by
  intro hends
  rcases h.goes_on hrequest hle history.length with
    hundecodable | ⟨further, p, hat, ⟨sink, latest, filters, -, rfl⟩, hopened⟩
  · exact hundecodable.not_ends hends
  · have hlen := length_opened_le further
    rw [hopened, List.length_append, List.length_replicate] at hlen
    have hlt := hends.length_lt hat
    omega

end

/-- Where each page brings a poll closer to its end, no poll goes on forever. -/
theorem wellFounded_turns (measure : Poll → Nat)
    (hless : ∀ history sink poll page cursor, w.At history (.waiting sink (.events poll)) →
      w.reply history (.events poll.request) = .ok page → page.nextCursor? = some cursor →
      measure { poll with request := poll.request.continued cursor } < measure poll) :
    WellFounded w.Turns := by
  have hacc : ∀ n history sink poll, w.At history (.waiting sink (.events poll)) →
      measure poll = n → Acc w.Turns history := by
    intro n
    induction n using Nat.strongRecOn with
    | ind n ih =>
    intro history sink poll hat hn
    refine Acc.intro history fun next hturns => ?_
    obtain ⟨_, sink', poll', page, cursor, hat', hr, hcursor, hnext, -⟩ := hturns
    obtain ⟨-, hpending⟩ := Progress.waiting.inj (hat'.2.unique hat.2)
    obtain rfl := Pending.events.inj hpending
    exact ih _ (hn ▸ hless history _ _ page cursor hat' hr hcursor) next sink' _ hnext rfl
  refine ⟨fun history => Acc.intro history fun next hturns => ?_⟩
  obtain ⟨_, sink', poll, _, cursor, -, -, -, hnext, -⟩ := hturns
  exact hacc _ next sink' _ hnext rfl

end World

namespace Rehearsal.Node

variable {live archive : Node} {filters : List EventFilter}

theorem events_eventsPage_sublist (n : Node) (r : EventsRequest) :
    (n.eventsPage r).events.Sublist (n.eventsOf (position r).1) :=
  (List.take_sublist ..).trans (List.drop_sublist ..)

def left (n : Node) (r : EventsRequest) : Nat :=
  (n.eventsOf (position r).1).length - (position r).2

theorem left_eq (n : Node) {r : EventsRequest} {ledger : LedgerNumber} {place : Nat}
    (h : position r = (ledger, place)) : n.left r = (n.eventsOf ledger).length - place := by
  rw [left, h]

theorem world_turns (hoverlap : live.overlap = 0) :
    WellFounded (world a live archive filters).Turns := by
  refine World.wellFounded_turns (fun poll => live.left poll.request) ?_
  intro history sink poll page cursor _ hr hcursor
  obtain rfl : (live.after (healthAsked history)).eventsPage poll.request = page :=
    Except.ok.inj hr
  obtain ⟨hcursor, hevents⟩ := EventsPage.cursor_of_nextCursor? _ hcursor
  have hlimit : live.overlap < poll.request.limit.toNat := by
    refine Nat.lt_of_not_le fun hle => hevents ?_
    have hzero : poll.request.limit.toNat = 0 := by omega
    simp [eventsPage, hzero]
  rcases hplace : position poll.request with ⟨ledger, place⟩
  have hg := live.gives_eventsPage_after (healthAsked history) hlimit hplace
  obtain ⟨next, hnext, hlt, -⟩ := hg.more cursor hcursor hevents
  have hposition := position_of_place hnext poll.request
  have hlength := hg.length_events
  have hpos := List.length_pos_iff.mpr hevents
  have hlisting : live.source.listing = live.eventsOf := rfl
  rw [hlisting] at hlength
  rw [left_eq live hposition, left_eq live hplace]
  omega

theorem world_answers (hoverlap : live.overlap = 0) (hhealthy : live.window.healthy = true)
    (holdest : live.window.health.oldestAvailable a.config.retentionMargin ≤ start)
    (hlatest : stop ≤ live.window.latest) : (world a live archive filters).Answers start stop where
  runs _ := rfl
  accepts _ _ := rfl
  health := ⟨live.window.health, rfl, hhealthy, holdest, hlatest⟩
  pages _ _ _ _ := ⟨_, rfl⟩
  finite := world_turns hoverlap

theorem world_not_failsToDecode
    (h : ∀ ledger, ∀ raw ∈ live.eventsOf ledger, ∃ event, a.decoder.decode raw = .ok event) :
    ¬(world a live archive filters).FailsToDecode := by
  rintro ⟨before, sink, poll, page, raw, cause, -, hr, hraw, hcause, -⟩
  obtain rfl : (live.after (healthAsked before)).eventsPage poll.request = page :=
    Except.ok.inj hr
  have hmem := (events_eventsPage_sublist _ poll.request).subset hraw
  rw [after_eq] at hmem
  obtain ⟨event, hevent⟩ := h _ raw hmem
  rw [hevent] at hcause
  cases hcause

end Rehearsal.Node

/-- A live run over closed ledgers polls each ledger of its range once and in order, and ends behind
the range, as long as the events can be decoded. If the range ends with the last ledger that can be
numbered, then that ledger is polled again and again, and the run never ends. -/
theorem bounded_run_ends_below_last (hrequest : a.request = .live (some start) (some stop))
    (hle : start ≤ stop) (h : w.Answers start stop) :
    w.FailsToDecode ∨
      (stop ≠ .last → ∃ history delivered, w.Ends history ⟨.completed, delivered, stop + 1⟩ ∧
        opened history = start.through stop) ∧
      (stop = .last →
        (∀ n, ∃ history p, w.At history p ∧
          opened history = start.through stop ++ List.replicate n stop) ∧
        ∀ history summary, ¬w.Ends history summary) := by
  refine Classical.or_iff_not_imp_left.mpr fun hsound => ⟨fun hne => ?_, ?_⟩
  · exact (h.ends_behind hrequest hle hne).resolve_left hsound
  · rintro rfl
    refine ⟨fun n => ?_, fun history summary => h.never_ends hrequest hle⟩
    obtain ⟨history, p, hat, -, hopened⟩ := (h.goes_on hrequest hle n).resolve_left hsound
    exact ⟨history, p, hat, hopened⟩

open Rehearsal

def closedNode : Node :=
  { risingNode with windows := [⟨3, 9, true⟩], overlap := 0 }

theorem closedNode_decodes (ledger : LedgerNumber) :
    ∀ raw ∈ closedNode.eventsOf ledger, ∃ event, Decoder.standard.decode raw = .ok event := by
  intro raw hraw
  have hraw : raw ∈ risingNode.source.between 5 7 := by
    rw [between_risingNode]
    exact (List.mem_filter.mp hraw).1
  exact risingNode_sound.decodes raw hraw

theorem closedNode_run_ends :
    (Node.world risingRun closedNode closedNode []).Answers 5 7 ∧
      ∃ history delivered, (Node.world risingRun closedNode closedNode []).Ends history
        ⟨.completed, delivered, 8⟩ ∧ opened history = [5, 6, 7] := by
  have hanswers : (Node.world risingRun closedNode closedNode []).Answers 5 7 :=
    Node.world_answers rfl rfl (by decide) (by decide)
  obtain ⟨hends, -⟩ := (bounded_run_ends_below_last rfl (by decide) hanswers).resolve_left
    (Node.world_not_failsToDecode closedNode_decodes)
  exact ⟨hanswers, hends (by decide)⟩

def lastNode : Node :=
  { closedNode with windows := [⟨4294967290, .last, true⟩], events := [] }

def lastRun : Assignment :=
  { risingRun with
    request := .live (some .last) (some .last)
    config := { EngineConfig.default with retentionMargin := 0 } }

/-- The last ledger is closed and its polls are empty, and still its run never ends. -/
theorem lastRun_never_ends :
    (Node.world lastRun lastNode lastNode []).Answers .last .last ∧
      ∀ history summary, ¬(Node.world lastRun lastNode lastNode []).Ends history summary := by
  have hanswers : (Node.world lastRun lastNode lastNode []).Answers .last .last :=
    Node.world_answers rfl rfl (by decide) (by decide)
  exact ⟨hanswers, fun _ _ => hanswers.never_ends rfl (by decide)⟩

end LedgerFeed
