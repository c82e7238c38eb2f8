import LedgerFeed.Run.History

/-! What a run does between two questions, move by move. An answer takes it to a point, and from
there it moves on until it asks again or ends. What holds at the beginning and is kept by every
answer and by every move holds wherever a run gets. -/

namespace LedgerFeed

namespace Origin

def rest : Origin → List RawEvent
  | page _ _ rest => rest
  | batch _ rest _ => rest

def withRest : Origin → List RawEvent → Origin
  | page poll given _, rest => .page poll given rest
  | batch b _ ledgers, rest => .batch b rest ledgers

def ledger : Origin → LedgerNumber
  | page poll _ _ => poll.ledger
  | batch b _ _ => b.expected

def filters : Origin → List EventFilter
  | page poll _ _ => poll.request.filters
  | batch b _ _ => b.filters

section

variable (origin : Origin) (raws raws' : List RawEvent)

@[simp] theorem rest_withRest : (origin.withRest raws).rest = raws := by
  cases origin <;> rfl

@[simp] theorem withRest_withRest :
    (origin.withRest raws).withRest raws' = origin.withRest raws' := by
  cases origin <;> rfl

@[simp] theorem withRest_rest : origin.withRest origin.rest = origin := by
  cases origin <;> rfl

@[simp] theorem ledger_withRest : (origin.withRest raws).ledger = origin.ledger := by
  cases origin <;> rfl

@[simp] theorem filters_withRest : (origin.withRest raws).filters = origin.filters := by
  cases origin <;> rfl

end

end Origin

/-- A point on a run's way from an answer to the next question, or to its end. -/
inductive Point where
  | choosing (start : Option LedgerNumber)
  | backfilling (next target : LedgerNumber)
  | backfilled (target : LedgerNumber)
  | taking (b : Batch) (ledgers : List RawLedger)
  | taken (b : Batch)
  | following (ledger latest : LedgerNumber)
  | requesting (poll : Poll)
  | offering (origin : Origin)
  | paged (poll : Poll) (page : EventsPage)
  | polled (poll : Poll) (reported : LedgerNumber)
  | resting (milliseconds : UInt64) (wait : Wait)
  | asking (pending : Pending)
  | ended (result : Except IngestError Exit)

def Wait.point : Wait → Point
  | atTip ledger latest => .following ledger latest
  | betweenPages poll => .requesting poll
  | betweenBatches next target => .backfilling next target

namespace Progress

def sink : Progress → Sink
  | ended sink _ => sink
  | waiting sink _ => sink

def point : Progress → Point
  | ended _ result => .ended result
  | waiting _ pending => .asking pending

end Progress

namespace Assignment

def targetBelow (a : Assignment) (health : Health) : LedgerNumber :=
  match a.request.stop? with
  | some stop => min (health.oldestAvailable a.config.retentionMargin - 1) stop
  | none => health.oldestAvailable a.config.retentionMargin - 1

/-- Where a stop that was asked for is seen, the ledger that is reported. -/
def checkpoint? (a : Assignment) : Point → Option LedgerNumber
  | .backfilling next target => if target < next then none else some next
  | .following ledger _ => if a.pastStop ledger then none else some ledger
  | .requesting poll => some poll.ledger
  | .offering origin => if origin.rest = [] then none else some origin.ledger
  | .resting _ wait => some wait.ledger
  | _ => none

inductive Checkpoint (a : Assignment) : Point → LedgerNumber → Prop
  | backfilling {next target : LedgerNumber} (h : next ≤ target) :
      Checkpoint a (.backfilling next target) next
  | following {ledger latest : LedgerNumber} (h : a.pastStop ledger = false) :
      Checkpoint a (.following ledger latest) ledger
  | requesting (poll : Poll) : Checkpoint a (.requesting poll) poll.ledger
  | offering {origin : Origin} {raw : RawEvent} {rest : List RawEvent}
      (h : origin.rest = raw :: rest) : Checkpoint a (.offering origin) origin.ledger
  | resting (milliseconds : UInt64) (wait : Wait) :
      Checkpoint a (.resting milliseconds wait) wait.ledger

theorem checkpoint_cases {a : Assignment} {point : Point} {ledger : LedgerNumber}
    (h : a.checkpoint? point = some ledger) : a.Checkpoint point ledger := by
  cases point with
  | backfilling next target =>
    obtain ⟨hle, hnext⟩ := Option.ite_none_left_eq_some.mp h
    exact Option.some.inj hnext ▸ .backfilling (UInt32.not_lt.mp hle)
  | following next latest =>
    obtain ⟨hin, hnext⟩ := Option.ite_none_left_eq_some.mp h
    exact Option.some.inj hnext ▸ .following (Bool.not_eq_true _ ▸ hin)
  | requesting poll => exact Option.some.inj h ▸ .requesting poll
  | offering origin =>
    obtain ⟨hrest, hledger⟩ := Option.ite_none_left_eq_some.mp h
    obtain ⟨raw, rest, hrest⟩ := List.exists_cons_of_ne_nil hrest
    exact Option.some.inj hledger ▸ .offering hrest
  | resting milliseconds wait => exact Option.some.inj h ▸ .resting milliseconds wait
  | choosing | backfilled | taking | taken | paged | polled | asking | ended => cases h

/-- One move of a run that is not waiting for an answer. -/
inductive Moves (a : Assignment) (signals : Signals) : Sink → Point → Sink → Point → Prop
  | stop {sink : Sink} {point : Point} {ledger : LedgerNumber} (hs : signals.stop = true)
      (h : a.checkpoint? point = some ledger) :
      Moves a signals sink point sink (.ended (.ok ⟨.stopped, ledger⟩))
  | choosePast {sink : Sink} {ledger : LedgerNumber} (h : a.pastStop ledger = true) :
      Moves a signals sink (.choosing (some ledger)) sink (.ended (.ok ⟨.completed, ledger⟩))
  | askHealth {sink : Sink} {start : Option LedgerNumber}
      (h : ∀ ledger, start = some ledger → a.pastStop ledger = false) :
      Moves a signals sink (.choosing start) sink (.asking (.liveHealth (.choosing start)))
  | reachTarget {sink : Sink} {next target : LedgerNumber} (h : target < next) :
      Moves a signals sink (.backfilling next target) sink (.backfilled target)
  | askBatch {sink : Sink} {next target : LedgerNumber} (hs : signals.stop = false)
      (h : next ≤ target) :
      Moves a signals sink (.backfilling next target) sink (.asking (.ledgers next target))
  | endArchive {sink : Sink} {target : LedgerNumber} (h : a.request.kind = .archive) :
      Moves a signals sink (.backfilled target) sink (.ended (.ok ⟨.completed, target.following⟩))
  | chooseAgain {sink : Sink} {target : LedgerNumber} (h : a.request.kind ≠ .archive) :
      Moves a signals sink (.backfilled target) sink (.choosing (some target.following))
  | skipLedger {sink : Sink} {b : Batch} {ledger : RawLedger} {ledgers : List RawLedger}
      (h : ledger.sequence < b.expected) :
      Moves a signals sink (.taking b (ledger :: ledgers)) sink (.taking b ledgers)
  | endLedgers {sink : Sink} {b : Batch} {ledgers : List RawLedger}
      (h : ∀ ledger ∈ ledgers.head?, b.target < ledger.sequence) :
      Moves a signals sink (.taking b ledgers) sink (.taken b)
  | gap {sink : Sink} {b : Batch} {ledger : RawLedger} {ledgers : List RawLedger}
      (h : b.expected < ledger.sequence) (hle : ledger.sequence ≤ b.target) :
      Moves a signals sink (.taking b (ledger :: ledgers)) sink
        (.ended (.error (.archiveGap b.expected b.archiveLatest)))
  | unreadable {sink : Sink} {b : Batch} {ledger : RawLedger} {ledgers : List RawLedger}
      {cause : DecodeError} (h : ledger.sequence = b.expected) (hle : b.expected ≤ b.target)
      (hr : a.decoder.ledgerEvents ledger = .error cause) :
      Moves a signals sink (.taking b (ledger :: ledgers)) sink
        (.ended (.error (.decode ledger.sequence cause)))
  | read {sink : Sink} {b : Batch} {ledger : RawLedger} {ledgers : List RawLedger}
      {raws : List RawEvent} (h : ledger.sequence = b.expected) (hle : b.expected ≤ b.target)
      (hr : a.decoder.ledgerEvents ledger = .ok raws) :
      Moves a signals sink (.taking b (ledger :: ledgers)) sink (.offering (.batch b raws ledgers))
  | duplicate {sink : Sink} {origin : Origin} {raw : RawEvent} {rest : List RawEvent}
      (hs : signals.stop = false) (h : origin.rest = raw :: rest)
      (hj : sink.judge a.decoder origin.filters raw = .duplicate) :
      Moves a signals sink (.offering origin) (sink.note raw .duplicate).skipDuplicate
        (.offering (origin.withRest rest))
  | filtered {sink : Sink} {origin : Origin} {raw : RawEvent} {rest : List RawEvent}
      (hs : signals.stop = false) (h : origin.rest = raw :: rest)
      (hj : sink.judge a.decoder origin.filters raw = .filtered) :
      Moves a signals sink (.offering origin) ((sink.note raw .filtered).skipFiltered raw)
        (.offering (origin.withRest rest))
  | undecodable {sink : Sink} {origin : Origin} {raw : RawEvent} {rest : List RawEvent}
      {cause : DecodeError} (hs : signals.stop = false) (h : origin.rest = raw :: rest)
      (hj : sink.judge a.decoder origin.filters raw = .undecodable cause) :
      Moves a signals sink (.offering origin) (sink.note raw (.undecodable cause))
        (.ended (.error (.decode raw.ledger cause)))
  | askHandler {sink : Sink} {origin : Origin} {raw : RawEvent} {rest : List RawEvent}
      {event : ContractEvent} (hs : signals.stop = false) (h : origin.rest = raw :: rest)
      (hj : sink.judge a.decoder origin.filters raw = .wanted event) :
      Moves a signals sink (.offering origin) (sink.note raw (.wanted event))
        (.asking (.verdict raw event (origin.withRest rest)))
  | endPage {sink : Sink} {poll : Poll} {page : EventsPage} :
      Moves a signals sink (.offering (.page poll page [])) sink (.paged poll page)
  | endLedger {sink : Sink} {b : Batch} {ledgers : List RawLedger} (h : b.expected ≠ .last) :
      Moves a signals sink (.offering (.batch b [] ledgers)) sink
        (.taking { b with expected := b.expected + 1 } ledgers)
  | endAtLast {sink : Sink} {b : Batch} {ledgers : List RawLedger} (h : b.expected = .last) :
      Moves a signals sink (.offering (.batch b [] ledgers))
        (sink.measure (.backfilled (b.expected - b.next + 1))) (.backfilled b.target)
  | noProgress {sink : Sink} {b : Batch} (h : b.expected = b.next) :
      Moves a signals sink (.taken b) sink
        (.ended (.error (.archiveGap b.next b.archiveLatest)))
  | endBatches {sink : Sink} {b : Batch} (h : b.expected ≠ b.next) (hlt : b.target < b.expected) :
      Moves a signals sink (.taken b)
        ((sink.measure (.backfilled (b.expected - b.next))).measure (.cursor .backfill b.expected))
        (.backfilled b.target)
  | nextBatch {sink : Sink} {b : Batch} (h : b.expected ≠ b.next) (hle : b.expected ≤ b.target) :
      Moves a signals sink (.taken b)
        ((sink.measure (.backfilled (b.expected - b.next))).measure (.cursor .backfill b.expected))
        (.resting a.config.archivalWait (.betweenBatches b.expected b.target))
  | followPast {sink : Sink} {ledger latest : LedgerNumber} (h : a.pastStop ledger = true) :
      Moves a signals sink (.following ledger latest) sink (.ended (.ok ⟨.completed, ledger⟩))
  | askTip {sink : Sink} {ledger latest : LedgerNumber} (hp : a.pastStop ledger = false)
      (hs : signals.stop = false) (h : latest < ledger) :
      Moves a signals sink (.following ledger latest) sink
        (.asking (.liveHealth (.following ledger)))
  | beginPoll {sink : Sink} {ledger latest : LedgerNumber} (hp : a.pastStop ledger = false)
      (hs : signals.stop = false) (h : ledger ≤ latest) :
      Moves a signals sink (.following ledger latest) (sink.measure .poll)
        (.requesting ⟨ledger, latest, .ofLedger ledger signals.filters a.config.pageSize⟩)
  | askPage {sink : Sink} {poll : Poll} (hs : signals.stop = false) :
      Moves a signals sink (.requesting poll) sink (.asking (.events poll))
  | hitStop {sink : Sink} {poll : Poll} {page : EventsPage}
      (h : page.runsPast poll.ledger = true) (hstop : a.request.stop? = some poll.ledger) :
      Moves a signals sink (.paged poll page) sink
        (.ended (.ok ⟨.completed, poll.ledger.following⟩))
  | drained {sink : Sink} {poll : Poll} {page : EventsPage}
      (h : page.runsPast poll.ledger = true ∧ a.request.stop? ≠ some poll.ledger ∨
        page.runsPast poll.ledger = false ∧ page.nextCursor? = none) :
      Moves a signals sink (.paged poll page) sink (.polled poll page.latest)
  | nextPage {sink : Sink} {poll : Poll} {page : EventsPage} {cursor : String}
      (h : page.runsPast poll.ledger = false) (hc : page.nextCursor? = some cursor) :
      Moves a signals sink (.paged poll page) sink
        (.resting a.config.pagingWait
          (.betweenPages { poll with request := poll.request.continued cursor }))
  | endPolls {sink : Sink} {poll : Poll} {reported : LedgerNumber}
      (h : a.pastStop poll.ledger.following = true) :
      Moves a signals sink (.polled poll reported)
        (sink.measure (.cursor .live poll.ledger.following))
        (.ended (.ok ⟨.completed, poll.ledger.following⟩))
  | restAtTip {sink : Sink} {poll : Poll} {reported : LedgerNumber}
      (hp : a.pastStop poll.ledger.following = false)
      (h : max poll.latest reported ≤ poll.ledger ∨ a.config.skipWaitIfBehind = false) :
      Moves a signals sink (.polled poll reported)
        (sink.measure (.cursor .live poll.ledger.following))
        (.resting a.config.liveWait (.atTip poll.ledger.following (max poll.latest reported)))
  | followOn {sink : Sink} {poll : Poll} {reported : LedgerNumber}
      (hp : a.pastStop poll.ledger.following = false)
      (h : poll.ledger < max poll.latest reported) (hskip : a.config.skipWaitIfBehind = true) :
      Moves a signals sink (.polled poll reported)
        (sink.measure (.cursor .live poll.ledger.following))
        (.following poll.ledger.following (max poll.latest reported))
  | proceed {sink : Sink} {wait : Wait} (hs : signals.stop = false) :
      Moves a signals sink (.resting 0 wait) sink wait.point
  | pause {sink : Sink} {milliseconds : UInt64} {wait : Wait} (hs : signals.stop = false)
      (h : milliseconds ≠ 0) :
      Moves a signals sink (.resting milliseconds wait) sink (.asking (.pause milliseconds wait))

def failure? (a : Assignment) (sink : Sink) :
    (pending : Pending) → (pending.question a).Reply → Option IngestError
  | .liveHealth _, .error failure => some (.node a.live failure)
  | .liveHealth _, .ok health => if health.healthy then none else some (.unhealthy a.live)
  | .archiveHealth _ _, .error failure => some (.node a.archiveEndpoint failure)
  | .archiveHealth _ _, .ok health =>
    if health.healthy then none else some (.unhealthy a.archiveEndpoint)
  | .ledgers _ _, .error failure => some (.node a.archiveEndpoint failure)
  | .ledgers _ _, .ok _ => none
  | .events _, .error failure => some (.node a.live failure)
  | .events _, .ok _ => none
  | .verdict raw _ _, verdict =>
    match sink.settle raw verdict with
    | .error error => some error
    | .ok _ => none
  | .pause _ _, _ => none

/-- The live node's health lets a run go on at a ledger: at the start that it chose, or else at the
tip. -/
structure Admits (a : Assignment) (signals : Signals) (start : Option LedgerNumber)
    (health : Health) (first : LedgerNumber) : Prop where
  healthy : health.healthy = true
  eq : first = start.getD health.latest
  within : start = none → a.pastStop health.latest = false
  running : signals.stop = false
  closed : first ≤ health.latest

inductive Hears (a : Assignment) (signals : Signals) (sink : Sink) :
    (pending : Pending) → (pending.question a).Reply → Sink → Point → Prop
  | failed {pending : Pending} {reply : (pending.question a).Reply} {error : IngestError}
      (h : a.failure? sink pending reply = some error) :
      Hears a signals sink pending reply sink (.ended (.error error))
  | tipPast {health : Health} (hh : health.healthy = true) (h : a.pastStop health.latest = true) :
      Hears a signals sink (.liveHealth (.choosing none)) (.ok health) sink
        (.ended (.ok ⟨.completed, health.latest⟩))
  | stopped {start : Option LedgerNumber} {health : Health} (hh : health.healthy = true)
      (hp : start = none → a.pastStop health.latest = false) (hs : signals.stop = true) :
      Hears a signals sink (.liveHealth (.choosing start)) (.ok health) sink
        (.ended (.ok ⟨.stopped, start.getD health.latest⟩))
  | ahead {first : LedgerNumber} {health : Health} (hh : health.healthy = true)
      (hs : signals.stop = false) (h : health.latest < first) :
      Hears a signals sink (.liveHealth (.choosing (some first))) (.ok health) sink
        (.ended (.error (.aheadOfTip first health.latest)))
  | within {start : Option LedgerNumber} {health : Health} {first : LedgerNumber}
      (ha : a.Admits signals start health first)
      (h : health.oldestAvailable a.config.retentionMargin ≤ first) :
      Hears a signals sink (.liveHealth (.choosing start)) (.ok health) (sink.withFeed .live)
        (.following first health.latest)
  | refused {start : Option LedgerNumber} {health : Health} {first : LedgerNumber}
      (ha : a.Admits signals start health first)
      (h : first < health.oldestAvailable a.config.retentionMargin) (hn : a.archive = none) :
      Hears a signals sink (.liveHealth (.choosing start)) (.ok health) sink
        (.ended (.error
          (.notRetained first (health.oldestAvailable a.config.retentionMargin) health.latest)))
  | below {start : Option LedgerNumber} {health : Health} {first : LedgerNumber}
      (ha : a.Admits signals start health first)
      (h : first < health.oldestAvailable a.config.retentionMargin)
      (hsome : a.archive.isSome = true) :
      Hears a signals sink (.liveHealth (.choosing start)) (.ok health) (sink.withFeed .backfill)
        (.backfilling first (a.targetBelow health))
  | unclosed {ledger : LedgerNumber} {health : Health} (hh : health.healthy = true)
      (h : health.latest < ledger) :
      Hears a signals sink (.liveHealth (.following ledger)) (.ok health) sink
        (.resting a.config.liveWait (.atTip ledger health.latest))
  | closed {ledger : LedgerNumber} {health : Health} (hh : health.healthy = true)
      (h : ledger ≤ health.latest) :
      Hears a signals sink (.liveHealth (.following ledger)) (.ok health) (sink.measure .poll)
        (.requesting
          ⟨ledger, health.latest, .ofLedger ledger signals.filters a.config.pageSize⟩)
  | archiveAhead {start stop : LedgerNumber} {health : Health} (hh : health.healthy = true)
      (h : health.latest < start) :
      Hears a signals sink (.archiveHealth start stop) (.ok health) sink
        (.ended (.error (.aheadOfTip start health.latest)))
  | archiveReady {start stop : LedgerNumber} {health : Health} (hh : health.healthy = true)
      (h : start ≤ health.latest) :
      Hears a signals sink (.archiveHealth start stop) (.ok health) sink (.backfilling start stop)
  | ledgers {next target : LedgerNumber} {page : LedgersPage} :
      Hears a signals sink (.ledgers next target) (.ok page) (sink.measure (.page .backfill))
        (.taking ⟨next, target, next, page.latest, signals.filters⟩ page.ledgers)
  | events {poll : Poll} {page : EventsPage} :
      Hears a signals sink (.events poll) (.ok page) (sink.measure (.page .live))
        (.offering (.page poll page (page.ofLedger poll.ledger)))
  | accepted {raw : RawEvent} {event : ContractEvent} {origin : Origin} :
      Hears a signals sink (.verdict raw event origin) .accepted (sink.deliver raw)
        (.offering origin)
  | rested {milliseconds : UInt64} {wait : Wait} :
      Hears a signals sink (.pause milliseconds wait) () sink (.resting 0 wait)

inductive Comes (a : Assignment) (signals : Signals) : Sink → Point → Progress → Prop
  | here (p : Progress) : Comes a signals p.sink p.point p
  | move {sink sink' : Sink} {point point' : Point} {p : Progress}
      (hm : a.Moves signals sink point sink' point') (h : Comes a signals sink' point' p) :
      Comes a signals sink point p

variable {a : Assignment} {signals : Signals}

theorem Comes.of_move {sink sink' : Sink} {point : Point} {p : Progress}
    (hm : a.Moves signals sink point sink' p.point) (hs : p.sink = sink') :
    a.Comes signals sink point p := by
  subst hs
  exact .move hm (.here p)

theorem stopped_comes (hs : signals.stop = true) (sink : Sink) {point : Point}
    {ledger : LedgerNumber} (h : a.checkpoint? point = some ledger) :
    a.Comes signals sink point (stopped sink ledger) :=
  .of_move (.stop hs h) rfl

theorem choose_comes (sink : Sink) (start : Option LedgerNumber) :
    a.Comes signals sink (.choosing start) (a.choose sink start) := by
  unfold choose
  split
  · exact .of_move (.askHealth (by simp)) rfl
  · rename_i ledger
    split
    · rename_i hpast
      exact .of_move (.choosePast hpast) rfl
    · rename_i hpast
      refine .of_move (.askHealth fun l hl => ?_) rfl
      obtain rfl := Option.some.inj hl
      simpa using hpast

theorem requestPage_comes (sink : Sink) (poll : Poll) :
    a.Comes signals sink (.requesting poll) (requestPage signals sink poll) := by
  unfold requestPage
  split
  · rename_i hs
    exact stopped_comes hs sink rfl
  · rename_i hs
    exact .of_move (.askPage (by simpa using hs)) rfl

theorem follow_comes (sink : Sink) (ledger latest : LedgerNumber) :
    a.Comes signals sink (.following ledger latest) (a.follow signals sink ledger latest) := by
  unfold follow
  split
  · rename_i hpast
    exact .of_move (.followPast hpast) rfl
  rename_i hpast
  have hpast : a.pastStop ledger = false := by simpa using hpast
  split
  · rename_i hs
    exact stopped_comes hs sink (by simp [checkpoint?, hpast])
  rename_i hs
  have hs : signals.stop = false := by simpa using hs
  split
  · rename_i hlt
    exact .of_move (.askTip hpast hs hlt) rfl
  · rename_i hle
    exact .move (.beginPoll hpast hs (UInt32.not_lt.mp hle)) (requestPage_comes ..)

theorem endBackfill_comes (sink : Sink) (target : LedgerNumber) :
    a.Comes signals sink (.backfilled target) (a.endBackfill sink target) := by
  unfold endBackfill
  split
  · rename_i hrequest
    exact .of_move (.endArchive (by rw [hrequest]; rfl)) rfl
  · rename_i hrequest
    refine .move (.chooseAgain ?_) (choose_comes ..)
    cases h : a.request with
    | archive start stop => exact absurd h (hrequest start stop)
    | live | combined => simp [RunRequest.kind]

theorem backfill_comes (sink : Sink) (next target : LedgerNumber) :
    a.Comes signals sink (.backfilling next target) (a.backfill signals sink next target) := by
  unfold backfill
  split
  · rename_i hlt
    exact .move (.reachTarget hlt) (endBackfill_comes ..)
  rename_i hle
  split
  · rename_i hs
    exact stopped_comes hs sink (by simp [checkpoint?, hle])
  · rename_i hs
    exact .of_move (.askBatch (by simpa using hs) (UInt32.not_lt.mp hle)) rfl

theorem proceed_comes (sink : Sink) (wait : Wait) :
    a.Comes signals sink wait.point (a.proceed signals sink wait) := by
  cases wait with
  | atTip => exact follow_comes ..
  | betweenPages => exact requestPage_comes ..
  | betweenBatches => exact backfill_comes ..

theorem wait_comes (sink : Sink) (milliseconds : UInt64) (wait : Wait) :
    a.Comes signals sink (.resting milliseconds wait) (a.wait signals sink milliseconds wait) := by
  unfold Assignment.wait
  split
  · rename_i hs
    exact stopped_comes hs sink rfl
  rename_i hs
  have hs : signals.stop = false := by simpa using hs
  split
  · rename_i hzero
    subst hzero
    exact .move (.proceed hs) (proceed_comes ..)
  · rename_i hne
    exact .of_move (.pause hs hne) rfl

theorem endPoll_comes (sink : Sink) (poll : Poll) (reported : LedgerNumber) :
    a.Comes signals sink (.polled poll reported) (a.endPoll signals sink poll reported) := by
  unfold endPoll
  dsimp only
  split
  · rename_i hpast
    exact .of_move (.endPolls hpast) rfl
  rename_i hpast
  have hpast : a.pastStop poll.ledger.following = false := by simpa using hpast
  split
  · rename_i h
    exact .move (.restAtTip hpast (by simpa using h)) (wait_comes ..)
  · rename_i h
    simp only [Bool.or_eq_true, decide_eq_true_eq, Bool.not_eq_true', not_or, UInt32.not_le,
      Bool.not_eq_false] at h
    exact .move (.followOn hpast h.1 h.2) (follow_comes ..)

theorem endPage_comes (sink : Sink) (poll : Poll) (page : EventsPage) :
    a.Comes signals sink (.paged poll page) (a.endPage signals sink poll page) := by
  unfold Assignment.endPage
  split
  · rename_i hpast
    split
    · rename_i hstop
      exact .of_move (.hitStop hpast hstop) rfl
    · rename_i hstop
      exact .move (.drained (.inl ⟨hpast, hstop⟩)) (endPoll_comes ..)
  · rename_i hpast
    have hpast : page.runsPast poll.ledger = false := by simpa using hpast
    split
    · rename_i hcursor
      exact .move (.nextPage hpast hcursor) (wait_comes ..)
    · rename_i hcursor
      exact .move (.drained (.inr ⟨hpast, hcursor⟩)) (endPoll_comes ..)

theorem offerThen_comes (origin : Origin) {go : Sink → Progress}
    (hgo : ∀ sink, a.Comes signals sink (.offering (origin.withRest [])) (go sink))
    (raws : List RawEvent) (sink : Sink) :
    a.Comes signals sink (.offering (origin.withRest raws))
      (a.offerThen signals sink origin.filters origin.ledger origin.withRest raws go) := by
  induction raws generalizing sink with
  | nil => exact hgo sink
  | cons raw rest ih =>
    have hrest : (origin.withRest (raw :: rest)).rest = raw :: rest := origin.rest_withRest _
    have hjudge {judgement : Judgement}
        (hj : sink.judge a.decoder origin.filters raw = judgement) :
        sink.judge a.decoder (origin.withRest (raw :: rest)).filters raw = judgement := by
      rwa [origin.filters_withRest]
    cases hs : signals.stop with
    | true =>
      have h : a.offerThen signals sink origin.filters origin.ledger origin.withRest (raw :: rest)
          go = stopped sink origin.ledger := by
        simp [offerThen, Sink.offerAll, hs]
      rw [h]
      exact stopped_comes hs sink (by simp [checkpoint?])
    | false =>
      simp only [offerThen, Sink.offerAll, hs, Bool.false_eq_true, if_false] at ih ⊢
      cases hj : sink.judge a.decoder origin.filters raw with
      | duplicate =>
        refine .move (.duplicate hs hrest (hjudge hj)) ?_
        rw [origin.withRest_withRest]
        exact ih _
      | filtered =>
        refine .move (.filtered hs hrest (hjudge hj)) ?_
        rw [origin.withRest_withRest]
        exact ih _
      | undecodable cause => exact .of_move (.undecodable hs hrest (hjudge hj)) rfl
      | wanted event =>
        have hm := @Moves.askHandler a signals sink _ raw rest event hs hrest (hjudge hj)
        rw [origin.withRest_withRest] at hm
        exact .of_move hm rfl

theorem offerPage_comes (sink : Sink) (poll : Poll) (page : EventsPage) (rest : List RawEvent) :
    a.Comes signals sink (.offering (.page poll page rest))
      (a.offerPage signals sink poll page rest) :=
  offerThen_comes (.page poll page rest)
    (fun sink => .move .endPage (endPage_comes sink poll page)) rest sink

theorem endBatch_comes (sink : Sink) (b : Batch) :
    a.Comes signals sink (.taken b) (a.endBatch signals sink b) := by
  unfold endBatch
  split
  · rename_i h
    exact .of_move (.noProgress h) rfl
  rename_i h
  dsimp only
  split
  · rename_i hlt
    exact .move (.endBatches h hlt) (endBackfill_comes ..)
  · rename_i hle
    exact .move (.nextBatch h (UInt32.not_lt.mp hle)) (wait_comes ..)

theorem offerBatch_comes (sink : Sink) (b : Batch) (ledgers : List RawLedger) :
    a.Comes signals sink (.taking b ledgers) (a.offerBatch signals sink b ledgers) := by
  induction ledgers generalizing b sink with
  | nil => exact .move (.endLedgers (by simp)) (endBatch_comes ..)
  | cons ledger ledgers ih =>
    unfold offerBatch
    split
    · rename_i hlt
      exact .move (.skipLedger hlt) (ih ..)
    rename_i hge
    split
    · rename_i hlt
      exact .move (.endLedgers (by simpa using hlt)) (endBatch_comes ..)
    rename_i hle
    have hle := UInt32.not_lt.mp hle
    split
    · rename_i hne
      have hlt : b.expected < ledger.sequence :=
        UInt32.lt_of_le_of_ne (UInt32.not_lt.mp hge) (Ne.symm hne)
      exact .of_move (.gap hlt hle) rfl
    rename_i heq
    rw [Decidable.not_not] at heq
    split
    · rename_i hr
      exact .of_move (.unreadable heq (heq ▸ hle) hr) rfl
    · rename_i raws hr
      refine .move (.read heq (heq ▸ hle) hr)
        (offerThen_comes (.batch b raws ledgers) (fun sink => ?_) raws sink)
      split
      · rename_i hlast
        exact .move (.endAtLast hlast) (endBackfill_comes ..)
      · rename_i hlast
        exact .move (.endLedger hlast) (ih ..)

theorem offerLedger_comes (sink : Sink) (b : Batch) (rest : List RawEvent)
    (ledgers : List RawLedger) :
    a.Comes signals sink (.offering (.batch b rest ledgers))
      (a.offerLedger signals sink b rest ledgers) := by
  refine offerThen_comes (.batch b rest ledgers) (fun sink => ?_) rest sink
  split
  · rename_i hlast
    exact .move (.endAtLast hlast) (endBackfill_comes ..)
  · rename_i hlast
    exact .move (.endLedger hlast) (offerBatch_comes ..)

theorem failure?_kind {sink : Sink} {pending : Pending} {reply : (pending.question a).Reply}
    {error : IngestError} (h : a.failure? sink pending reply = some error) :
    error.kind ≠ .range := by
  have hhealth {endpoint : String} {reported : Health}
      (h : (if reported.healthy then none else some (IngestError.unhealthy endpoint)) =
        some error) : error.kind ≠ .range := by
    split at h
    · cases h
    · obtain rfl := Option.some.inj h
      simp [IngestError.kind]
  cases pending with
  | liveHealth | archiveHealth =>
    cases reply with
    | error failure =>
      obtain rfl := Option.some.inj h
      simp [IngestError.kind]
    | ok reported => exact hhealth h
  | ledgers | events =>
    cases reply with
    | error failure =>
      obtain rfl := Option.some.inj h
      simp [IngestError.kind]
    | ok page => cases h
  | verdict =>
    cases reply with
    | accepted => cases h
    | failed | panicked =>
      obtain rfl := Option.some.inj h
      simp [IngestError.kind]
  | pause => cases h

theorem withHealth_hears {sink : Sink} {pending : Pending} {reply : (pending.question a).Reply}
    {endpoint : String} {go : Health → Progress} {answer : Except NodeFailure Health}
    (herror : ∀ failure, answer = .error failure →
      a.failure? sink pending reply = some (.node endpoint failure))
    (hbad : ∀ health, answer = .ok health → health.healthy = false →
      a.failure? sink pending reply = some (.unhealthy endpoint))
    (hgood : ∀ health, answer = .ok health → health.healthy = true → ∃ sink' point,
      a.Hears signals sink pending reply sink' point ∧ a.Comes signals sink' point (go health)) :
    ∃ sink' point, a.Hears signals sink pending reply sink' point ∧
      a.Comes signals sink' point (withHealth sink endpoint go answer) := by
  unfold withHealth
  split
  · exact ⟨sink, _, .failed (herror _ rfl), .here (failed sink _)⟩
  · split
    · rename_i hhealthy
      exact hgood _ rfl hhealthy
    · rename_i hhealthy
      exact ⟨sink, _, .failed (hbad _ rfl (by simpa using hhealthy)), .here (failed sink _)⟩

theorem beginAt_hears (sink : Sink) (start : Option LedgerNumber) {health : Health}
    (hhealthy : health.healthy = true) :
    ∃ sink' point, a.Hears signals sink (.liveHealth (.choosing start)) (.ok health) sink' point ∧
      a.Comes signals sink' point (a.beginAt signals sink start health) := by
  unfold beginAt
  dsimp only
  split
  · rename_i h
    rw [Bool.and_eq_true, Option.isNone_iff_eq_none] at h
    obtain ⟨rfl, hpast⟩ := h
    exact ⟨sink, _, .tipPast hhealthy hpast, .here (completed sink _)⟩
  rename_i hin
  have hin : start = none → a.pastStop health.latest = false := by
    rintro rfl
    simpa using hin
  split
  · rename_i hs
    exact ⟨sink, _, .stopped hhealthy hin hs, .here (stopped sink _)⟩
  rename_i hs
  have hs : signals.stop = false := by simpa using hs
  split
  · rename_i hlt
    cases start with
    | none => exact absurd hlt (UInt32.lt_irrefl _)
    | some first => exact ⟨sink, _, .ahead hhealthy hs hlt, .here (failed sink _)⟩
  rename_i hle
  have hadmits : a.Admits signals start health (start.getD health.latest) :=
    ⟨hhealthy, rfl, hin, hs, UInt32.not_lt.mp hle⟩
  split
  · rename_i hold
    exact ⟨_, _, .within hadmits hold, follow_comes ..⟩
  rename_i hold
  have hold := UInt32.not_le.mp hold
  split
  · rename_i hnone
    exact ⟨sink, _, .refused hadmits hold hnone, .here (failed sink _)⟩
  · rename_i hsome
    exact ⟨_, _, .below hadmits hold (by rw [hsome]; rfl), backfill_comes ..⟩

theorem resume_comes (sink : Sink) (pending : Pending) (reply : (pending.question a).Reply) :
    ∃ sink' point, a.Hears signals sink pending reply sink' point ∧
      a.Comes signals sink' point (a.resume signals sink pending reply) := by
  cases pending with
  | liveHealth use =>
    cases use with
    | choosing start =>
      refine withHealth_hears (fun failure h => ?_) (fun health h hbad => ?_)
        fun health h hgood => ?_
      · exact h ▸ rfl
      · exact h ▸ (by simp [failure?, hbad])
      · exact h ▸ beginAt_hears sink start hgood
    | following ledger =>
      refine withHealth_hears (fun failure h => ?_) (fun health h hbad => ?_)
        fun health h hgood => ?_
      · exact h ▸ rfl
      · exact h ▸ (by simp [failure?, hbad])
      · subst h
        unfold followTo
        split
        · rename_i hlt
          exact ⟨sink, _, .unclosed hgood hlt, wait_comes ..⟩
        · rename_i hle
          exact ⟨_, _, .closed hgood (UInt32.not_lt.mp hle), requestPage_comes ..⟩
  | archiveHealth start stop =>
    refine withHealth_hears (fun failure h => ?_) (fun health h hbad => ?_)
      fun health h hgood => ?_
    · exact h ▸ rfl
    · exact h ▸ (by simp [failure?, hbad])
    · subst h
      unfold beginArchive
      split
      · rename_i hlt
        exact ⟨sink, _, .archiveAhead hgood hlt, .here (failed sink _)⟩
      · rename_i hle
        exact ⟨sink, _, .archiveReady hgood (UInt32.not_lt.mp hle), backfill_comes ..⟩
  | ledgers next target =>
    cases reply with
    | error failure => exact ⟨sink, _, .failed rfl, .here (failed sink _)⟩
    | ok page => exact ⟨_, _, .ledgers, offerBatch_comes ..⟩
  | events poll =>
    cases reply with
    | error failure => exact ⟨sink, _, .failed rfl, .here (failed sink _)⟩
    | ok page => exact ⟨_, _, .events, offerPage_comes ..⟩
  | verdict raw event origin =>
    cases reply with
    | accepted =>
      cases origin with
      | page => exact ⟨_, _, .accepted, offerPage_comes ..⟩
      | batch => exact ⟨_, _, .accepted, offerLedger_comes ..⟩
    | failed | panicked =>
      cases origin <;> exact ⟨sink, _, .failed rfl, .here (failed sink _)⟩
  | pause milliseconds wait =>
    refine ⟨sink, _, .rested, ?_⟩
    have hresume : a.resume signals sink (.pause milliseconds wait) reply =
        a.wait signals sink 0 wait := rfl
    rw [hresume]
    exact wait_comes ..

theorem begin_cases (a : Assignment) :
    (∃ start stop, a.request = .archive start stop ∧
      a.begin = .waiting (.ofCapacity a.config.dedupCapacity .backfill)
        (.archiveHealth start stop)) ∨
    a.request.kind ≠ .archive ∧
      ((∀ ledger, a.request.start? = some ledger → a.pastStop ledger = false) ∧
          a.begin = .waiting (.ofCapacity a.config.dedupCapacity .live)
            (.liveHealth (.choosing a.request.start?)) ∨
        ∃ ledger, a.request.start? = some ledger ∧ a.pastStop ledger = true ∧
          a.begin = completed (.ofCapacity a.config.dedupCapacity .live) ledger) := by
  have hchoose (start : Option LedgerNumber) (sink : Sink) :
      (∀ ledger, start = some ledger → a.pastStop ledger = false) ∧
          a.choose sink start = .waiting sink (.liveHealth (.choosing start)) ∨
        ∃ ledger, start = some ledger ∧ a.pastStop ledger = true ∧
          a.choose sink start = completed sink ledger := by
    cases start with
    | none => exact .inl ⟨by simp, rfl⟩
    | some ledger =>
      cases hpast : a.pastStop ledger with
      | true => exact .inr ⟨ledger, rfl, hpast, if_pos hpast⟩
      | false =>
        refine .inl ⟨fun l hl => Option.some.inj hl ▸ hpast, if_neg (by simp [hpast])⟩
  unfold Assignment.begin
  cases hrequest : a.request with
  | archive start stop => exact .inl ⟨start, stop, rfl, rfl⟩
  | live start stop => exact .inr ⟨by simp [RunRequest.kind], hchoose start _⟩
  | combined start stop => exact .inr ⟨by simp [RunRequest.kind], hchoose start _⟩

/-- What holds at the beginning and is kept by every answer and every move holds wherever a run
gets. -/
theorem Reaches.invariant {I : List (Moment a) → Sink → Point → Prop}
    (hbegin : I [] a.begin.sink a.begin.point)
    (hhears : ∀ {history sink pending reply sink' point} (signals : Signals),
      I history sink (.asking pending) → a.Hears signals sink pending reply sink' point →
        I (⟨pending, signals, reply⟩ :: history) sink' point)
    (hmoves : ∀ {history m sink point sink' point'},
      I (m :: history) sink point → a.Moves m.signals sink point sink' point' →
        I (m :: history) sink' point')
    {history : List (Moment a)} {p : Progress} (h : a.Reaches history p) :
    I history p.sink p.point := by
  induction h with
  | begin => exact hbegin
  | @resume before sink pending _ signals reply ih =>
    obtain ⟨sink', point, hh, hc⟩ := @resume_comes a signals sink pending reply
    have hpoint := hhears signals ih hh
    generalize a.resume signals sink pending reply = p at hc
    clear hh
    induction hc with
    | here => exact hpoint
    | move hm _ ih => exact ih (hmoves hpoint hm)

/-- What holds at a point and is kept by every answer and every move holds from there on, whenever
the run asks and wherever it gets. -/
theorem Reaches.keeps {I : Point → Prop}
    (hhears : ∀ {signals sink pending reply sink' point}, I (.asking pending) →
      a.Hears signals sink pending reply sink' point → I point)
    (hmoves : ∀ {signals sink point sink' point'}, I point →
      a.Moves signals sink point sink' point' → I point')
    {history later : List (Moment a)} {p q : Progress} (hq : a.Reaches history q) (hI : I q.point)
    (h : a.Reaches (later ++ history) p) : I p.point := by
  induction later generalizing p with
  | nil => exact h.unique hq ▸ hI
  | cons m later ih =>
    cases h with
    | @resume _ sink pending hw signals reply =>
      obtain ⟨sink', point, hh, hc⟩ := @resume_comes a signals sink pending reply
      have hpoint := hhears (ih hw) hh
      generalize a.resume signals sink pending reply = p at hc
      clear hh
      induction hc with
      | here => exact hpoint
      | move hm _ ih => exact ih (hmoves hpoint hm)

end Assignment
end LedgerFeed
