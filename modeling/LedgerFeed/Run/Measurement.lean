import LedgerFeed.Ledger.Number

/-! What is measured while events are fetched and delivered. -/

namespace LedgerFeed

inductive Feed where
  | live
  | backfill
  deriving DecidableEq

inductive SkipReason where
  | duplicate
  | filtered
  deriving DecidableEq

inductive RunKind where
  | live
  | archive
  | combined
  deriving DecidableEq

inductive RunEnd where
  | completed
  | stopped
  | failed
  deriving DecidableEq

inductive Measurement where
  | delivered (feed : Feed)
  | skipped (reason : SkipReason)
  | poll
  | page (feed : Feed)
  | backfilled (ledgers : UInt32)
  | cursor (feed : Feed) (ledger : LedgerNumber)
  | nodeHealth (endpoint : String) (healthy : Bool)
  | run (kind : RunKind) (outcome : RunEnd)
  deriving DecidableEq

def Feed.name : Feed → String
  | live => "live"
  | backfill => "backfill"

def SkipReason.name : SkipReason → String
  | duplicate => "duplicate"
  | filtered => "filtered"

def RunKind.name : RunKind → String
  | live => "live"
  | archive => "archive"
  | combined => "combined"

def RunEnd.name : RunEnd → String
  | completed => "completed"
  | stopped => "stopped"
  | failed => "error"

end LedgerFeed
