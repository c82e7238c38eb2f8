import LedgerFeed.Filter.Basic

/-! What a ledger node is asked and what it answers. -/

namespace LedgerFeed

structure Health where
  healthy : Bool
  oldest : LedgerNumber
  latest : LedgerNumber
  window : UInt32
  deriving DecidableEq

/-- The oldest ledger that is safe to ask for, `margin` ledgers ahead of the node's pruning. -/
def Health.oldestAvailable (h : Health) (margin : UInt32) : LedgerNumber :=
  h.oldest.advance margin

structure EventsRequest where
  start : Option LedgerNumber
  stop : Option LedgerNumber
  cursor : Option String
  filters : List EventFilter
  limit : UInt32
  deriving DecidableEq

namespace EventsRequest

def ofLedger (ledger : LedgerNumber) (filters : List EventFilter) (limit : UInt32) :
    EventsRequest where
  start := some ledger
  stop := some ledger.following
  cursor := none
  filters
  limit

/-- The page at a cursor. The cursor holds the position, so no start is given. -/
def continued (r : EventsRequest) (cursor : String) : EventsRequest :=
  { r with start := none, cursor := some cursor }

end EventsRequest

structure EventsPage where
  events : List RawEvent
  latest : LedgerNumber
  cursor : Option String
  deriving DecidableEq

structure LedgersRequest where
  start : LedgerNumber
  limit : UInt32
  deriving DecidableEq

structure LedgersPage where
  ledgers : List RawLedger
  latest : LedgerNumber
  oldest : LedgerNumber
  deriving DecidableEq

inductive NodeFailure where
  | transport (cause : String)
  | timeout (seconds : UInt64)
  | http (status : UInt16)
  | rpc (code : Int64) (message : String)
  | invalid (cause : String)
  deriving DecidableEq

def NodeFailure.message : NodeFailure → String
  | transport cause => s!"transport error: {cause}"
  | timeout seconds => s!"request timed out after {seconds} seconds"
  | http status => s!"HTTP status {status}"
  | rpc code message => s!"RPC error {code}: {message}"
  | invalid cause => s!"invalid response: {cause}"

end LedgerFeed
