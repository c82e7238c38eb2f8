import LedgerFeed.Run.Basic

/-! The steps of a run. A combined run chooses by the live node's health: below its retention
window it backfills from the archive and chooses again, within the window it follows the tip. A
live run is a combined run without an archive, and an archive run is one backfill.

Backfill takes ledgers strictly in sequence and never jumps over one. Following polls one ledger at
a time, page by page, once the ledger is known to be closed. A stop is seen before every page,
batch and event, and cuts waits short. -/

namespace LedgerFeed

namespace EventsPage

/-- The events of one ledger, up to the first of a later one. -/
def ofLedger (p : EventsPage) (ledger : LedgerNumber) : List RawEvent :=
  (p.events.takeWhile fun e => e.ledger ≤ ledger).filter fun e => e.ledger = ledger

def runsPast (p : EventsPage) (ledger : LedgerNumber) : Bool :=
  p.events.any fun e => ledger < e.ledger

/-- The cursor to go on with. A page without events is the last one. -/
def nextCursor? (p : EventsPage) : Option String :=
  if p.events.isEmpty then none else p.cursor

end EventsPage

/-- A way to reckon with ledger numbers: what becomes of a difference or a sum, given how a step
goes on with it. A run reckons with words. -/
class Reckoning (R : Type) where
  of : Progress → R
  minus : LedgerNumber → LedgerNumber → (LedgerNumber → R) → R
  plus : LedgerNumber → LedgerNumber → (LedgerNumber → R) → R

namespace Reckoning

@[default_instance] instance : Reckoning Progress where
  of p := p
  minus l m go := go (l - m)
  plus l n go := go (l + n)

variable (l m : LedgerNumber) (go : LedgerNumber → Progress)

@[simp] theorem of_progress (p : Progress) : (of p : Progress) = p := rfl
@[simp] theorem minus_progress : minus l m go = go (l - m) := rfl
@[simp] theorem plus_progress : plus l m go = go (l + m) := rfl

end Reckoning

def Wait.ledger : Wait → LedgerNumber
  | atTip ledger _ => ledger
  | betweenPages poll => poll.ledger
  | betweenBatches next _ => next

namespace Assignment

open Reckoning (of minus plus)

variable {R : Type} [Reckoning R] (a : Assignment) (signals : Signals)

def pastStop (ledger : LedgerNumber) : Bool :=
  a.request.stop?.any (· < ledger)

def completed (sink : Sink) (resume : LedgerNumber) : Progress :=
  .ended sink (.ok ⟨.completed, resume⟩)

def stopped (sink : Sink) (resume : LedgerNumber) : Progress :=
  .ended sink (.ok ⟨.stopped, resume⟩)

def failed (sink : Sink) (error : IngestError) : Progress :=
  .ended sink (.error error)

def choose (sink : Sink) (start : Option LedgerNumber) : Progress :=
  match start with
  | none => .waiting sink (.liveHealth (.choosing none))
  | some ledger =>
    if a.pastStop ledger then completed sink ledger
    else .waiting sink (.liveHealth (.choosing (some ledger)))

def requestPage (sink : Sink) (poll : Poll) : Progress :=
  if signals.stop then stopped sink poll.ledger else .waiting sink (.events poll)

def beginPoll (sink : Sink) (ledger latest : LedgerNumber) : Progress :=
  requestPage signals (sink.measure .poll)
    ⟨ledger, latest, .ofLedger ledger signals.filters a.config.pageSize⟩

def follow (sink : Sink) (ledger latest : LedgerNumber) : Progress :=
  if a.pastStop ledger then completed sink ledger
  else if signals.stop then stopped sink ledger
  else if latest < ledger then .waiting sink (.liveHealth (.following ledger))
  else a.beginPoll signals sink ledger latest

def endBackfill (sink : Sink) (target : LedgerNumber) : Progress :=
  match a.request with
  | .archive .. => completed sink target.following
  | _ => a.choose sink (some target.following)

def backfill (sink : Sink) (next target : LedgerNumber) : Progress :=
  if target < next then a.endBackfill sink target
  else if signals.stop then stopped sink next
  else .waiting sink (.ledgers next target)

def proceed (sink : Sink) : Wait → Progress
  | .atTip ledger latest => a.follow signals sink ledger latest
  | .betweenPages poll => requestPage signals sink poll
  | .betweenBatches next target => a.backfill signals sink next target

def wait (sink : Sink) (milliseconds : UInt64) (w : Wait) : Progress :=
  if signals.stop then stopped sink w.ledger
  else if milliseconds = 0 then a.proceed signals sink w
  else .waiting sink (.pause milliseconds w)

def endPoll (sink : Sink) (poll : Poll) (reported : LedgerNumber) : Progress :=
  -- a page may report an older tip than the one that let the poll begin
  let latest := max poll.latest reported
  let next := poll.ledger.following
  let sink := sink.measure (.cursor .live next)
  if a.pastStop next then completed sink next
  else if latest ≤ poll.ledger || !a.config.skipWaitIfBehind then
    a.wait signals sink a.config.liveWait (.atTip next latest)
  else a.follow signals sink next latest

def endPage (sink : Sink) (poll : Poll) (page : EventsPage) : Progress :=
  if page.runsPast poll.ledger then
    -- the last ledger of the range needs no look at the tip
    if a.request.stop? = some poll.ledger then completed sink poll.ledger.following
    else a.endPoll signals sink poll page.latest
  else
    match page.nextCursor? with
    | some cursor =>
      a.wait signals sink a.config.pagingWait
        (.betweenPages { poll with request := poll.request.continued cursor })
    | none => a.endPoll signals sink poll page.latest

def offerThen (sink : Sink) (filters : List EventFilter) (ledger : LedgerNumber)
    (origin : List RawEvent → Origin) (events : List RawEvent) (go : Sink → R) : R :=
  match sink.offerAll a.decoder filters signals.stop events with
  | .through sink => go sink
  | .asking sink raw event rest => of (.waiting sink (.verdict raw event (origin rest)))
  | .stopped sink => of (stopped sink ledger)
  | .undecodable sink raw error => of (failed sink (.decode raw.ledger error))

def offerPage (sink : Sink) (poll : Poll) (page : EventsPage) (rest : List RawEvent) : Progress :=
  a.offerThen signals sink poll.request.filters poll.ledger (.page poll page) rest fun sink =>
    a.endPage signals sink poll page

def endBatch (sink : Sink) (b : Batch) : R :=
  -- without progress the same batch would be asked for again and again
  if b.expected = b.next then of (failed sink (.archiveGap b.next b.archiveLatest))
  else
    minus b.expected b.next fun taken =>
      let sink := (sink.measure (.backfilled taken)).measure (.cursor .backfill b.expected)
      of <|
        if b.target < b.expected then a.endBackfill sink b.target
        else a.wait signals sink a.config.archivalWait (.betweenBatches b.expected b.target)

def endAtLast (sink : Sink) (b : Batch) : R :=
  minus b.expected b.next fun before =>
    plus before 1 fun taken => of (a.endBackfill (sink.measure (.backfilled taken)) b.target)

/-- Offers a batch's ledgers in sequence. Ledgers below the expected one were processed before, and
those above the target are not wanted. -/
def offerBatch (sink : Sink) (b : Batch) : List RawLedger → R
  | [] => a.endBatch signals sink b
  | ledger :: ledgers =>
    if ledger.sequence < b.expected then offerBatch sink b ledgers
    else if b.target < ledger.sequence then a.endBatch signals sink b
    else if ledger.sequence ≠ b.expected then
      of (failed sink (.archiveGap b.expected b.archiveLatest))
    else
      match a.decoder.ledgerEvents ledger with
      | .error error => of (failed sink (.decode ledger.sequence error))
      | .ok events =>
        a.offerThen signals sink b.filters b.expected (.batch b · ledgers) events fun sink =>
          if b.expected = .last then a.endAtLast sink b
          else plus b.expected 1 fun expected => offerBatch sink { b with expected } ledgers

def offerLedger (sink : Sink) (b : Batch) (rest : List RawEvent) (ledgers : List RawLedger) : R :=
  a.offerThen signals sink b.filters b.expected (.batch b · ledgers) rest fun sink =>
    if b.expected = .last then a.endAtLast sink b
    else plus b.expected 1 fun expected => a.offerBatch signals sink { b with expected } ledgers

def beginAt (sink : Sink) (start : Option LedgerNumber) (health : Health) : R :=
  let oldest := health.oldestAvailable a.config.retentionMargin
  -- only a tip that stands in for the start can lie beyond the range here
  let first := start.getD health.latest
  if start.isNone && a.pastStop first then of (completed sink first)
  else if signals.stop then of (stopped sink first)
  else if health.latest < first then of (failed sink (.aheadOfTip first health.latest))
  else if oldest ≤ first then of (a.follow signals (sink.withFeed .live) first health.latest)
  else
    match a.archive with
    | none => of (failed sink (.notRetained first oldest health.latest))
    | some _ =>
      minus oldest 1 fun below =>
        of <| a.backfill signals (sink.withFeed .backfill) first
          (match a.request.stop? with
            | some stop => min below stop
            | none => below)

def followTo (sink : Sink) (ledger latest : LedgerNumber) : Progress :=
  if latest < ledger then a.wait signals sink a.config.liveWait (.atTip ledger latest)
  else a.beginPoll signals sink ledger latest

def beginArchive (sink : Sink) (start stop : LedgerNumber) (health : Health) : Progress :=
  if health.latest < start then failed sink (.aheadOfTip start health.latest)
  else a.backfill signals sink start stop

def withHealth (sink : Sink) (endpoint : String) (go : Health → R) :
    Except NodeFailure Health → R
  | .error failure => of (failed sink (.node endpoint failure))
  | .ok health => if health.healthy then go health else of (failed sink (.unhealthy endpoint))

def archiveEndpoint : String :=
  a.archive.getD ""

def resume (sink : Sink) : (p : Pending) → (p.question a).Reply → R
  | .liveHealth (.choosing start), reply =>
    withHealth sink a.live (a.beginAt signals sink start) reply
  | .liveHealth (.following ledger), reply =>
    withHealth sink a.live (fun health => of (a.followTo signals sink ledger health.latest)) reply
  | .archiveHealth start stop, reply =>
    withHealth sink a.archiveEndpoint
      (fun health => of (a.beginArchive signals sink start stop health)) reply
  | .ledgers _ _, .error failure => of (failed sink (.node a.archiveEndpoint failure))
  | .ledgers next target, .ok page =>
    a.offerBatch signals (sink.measure (.page .backfill))
      ⟨next, target, next, page.latest, signals.filters⟩ page.ledgers
  | .events _, .error failure => of (failed sink (.node a.live failure))
  | .events poll, .ok page =>
    of (a.offerPage signals (sink.measure (.page .live)) poll page (page.ofLedger poll.ledger))
  | .verdict raw _ (.page poll page rest), verdict =>
    match sink.settle raw verdict with
    | .error error => of (failed sink error)
    | .ok sink => of (a.offerPage signals sink poll page rest)
  | .verdict raw _ (.batch b rest ledgers), verdict =>
    match sink.settle raw verdict with
    | .error error => of (failed sink error)
    | .ok sink => a.offerLedger signals sink b rest ledgers
  | .pause _ w, _ =>
    of (if signals.stop then stopped sink w.ledger else a.proceed signals sink w)

def begin : Progress :=
  match a.request with
  | .archive start stop =>
    .waiting (.ofCapacity a.config.dedupCapacity .backfill) (.archiveHealth start stop)
  | .live start _ => a.choose (.ofCapacity a.config.dedupCapacity .live) start
  | .combined start _ => a.choose (.ofCapacity a.config.dedupCapacity .live) start

end Assignment
end LedgerFeed
