import LedgerFeed.Config.Basic
import LedgerFeed.Node.Basic
import LedgerFeed.Run.Sink

/-! Runs: what a caller asks for, what a run asks of the world while it is under way, and what it
comes to. Between two questions a run is a value that says where it stands. -/

namespace LedgerFeed

/-- What a caller wants delivered. The stop ledger is the last one to deliver. -/
inductive RunRequest where
  | live (start stop : Option LedgerNumber)
  | archive (start stop : LedgerNumber)
  | combined (start stop : Option LedgerNumber)
  deriving DecidableEq

namespace RunRequest

def kind : RunRequest → RunKind
  | live .. => .live
  | archive .. => .archive
  | combined .. => .combined

def stop? : RunRequest → Option LedgerNumber
  | live _ stop => stop
  | archive _ stop => some stop
  | combined _ stop => stop

def start? : RunRequest → Option LedgerNumber
  | live start _ => start
  | archive start _ => some start
  | combined start _ => start

def check (r : RunRequest) : Except IngestError Unit :=
  match r.start?, r.stop? with
  | some start, some stop =>
    if stop < start then .error (.invertedRange start stop) else .ok ()
  | _, _ => .ok ()

end RunRequest

inductive Outcome where
  | completed
  | stopped
  deriving DecidableEq

/-- Where a run ended: the first ledger that it did not process to the end. -/
structure Exit where
  outcome : Outcome
  resume : LedgerNumber
  deriving DecidableEq

structure Assignment where
  request : RunRequest
  config : EngineConfig
  decoder : Decoder
  live : String
  /-- The archive that was bound when the run began, if the run may use it. -/
  archive : Option String

structure Signals where
  stop : Bool
  filters : List EventFilter
  deriving DecidableEq

structure Poll where
  ledger : LedgerNumber
  /-- The tip as known before the poll. -/
  latest : LedgerNumber
  request : EventsRequest
  deriving DecidableEq

/-- A batch of archived ledgers: asked for from `next`, and processed up to `expected`. -/
structure Batch where
  next : LedgerNumber
  target : LedgerNumber
  expected : LedgerNumber
  archiveLatest : LedgerNumber
  filters : List EventFilter
  deriving DecidableEq

inductive HealthUse where
  | choosing (start : Option LedgerNumber)
  | following (ledger : LedgerNumber)
  deriving DecidableEq

inductive Wait where
  | atTip (ledger latest : LedgerNumber)
  | betweenPages (poll : Poll)
  | betweenBatches (next target : LedgerNumber)
  deriving DecidableEq

inductive Origin where
  | page (poll : Poll) (page : EventsPage) (rest : List RawEvent)
  | batch (batch : Batch) (rest : List RawEvent) (ledgers : List RawLedger)
  deriving DecidableEq

inductive Pending where
  | liveHealth (use : HealthUse)
  | archiveHealth (start stop : LedgerNumber)
  | ledgers (next target : LedgerNumber)
  | events (poll : Poll)
  | verdict (raw : RawEvent) (event : ContractEvent) (origin : Origin)
  | pause (milliseconds : UInt64) (wait : Wait)
  deriving DecidableEq

inductive NodeRole where
  | live
  | archive
  deriving DecidableEq

inductive Question where
  | health (role : NodeRole)
  | events (request : EventsRequest)
  | ledgers (request : LedgersRequest)
  | handle (event : ContractEvent)
  | pause (milliseconds : UInt64)
  deriving DecidableEq

def Question.Reply : Question → Type
  | health _ => Except NodeFailure Health
  | events _ => Except NodeFailure EventsPage
  | ledgers _ => Except NodeFailure LedgersPage
  | handle _ => Verdict
  | pause _ => Unit

/-- A batch of ledgers: a page, but none beyond the target, which is so far from its start. -/
def Assignment.batchOf (a : Assignment) (next left : LedgerNumber) : LedgersRequest :=
  ⟨next, min a.config.pageSize (left.advance 1)⟩

def Assignment.batchRequest (a : Assignment) (next target : LedgerNumber) : LedgersRequest :=
  a.batchOf next (target - next)

def Pending.question (a : Assignment) : Pending → Question
  | liveHealth _ => .health .live
  | archiveHealth .. => .health .archive
  | ledgers next target => .ledgers (a.batchRequest next target)
  | events poll => .events poll.request
  | verdict _ event _ => .handle event
  | pause milliseconds _ => .pause milliseconds

inductive Progress where
  | ended (sink : Sink) (result : Except IngestError Exit)
  | waiting (sink : Sink) (pending : Pending)

end LedgerFeed
