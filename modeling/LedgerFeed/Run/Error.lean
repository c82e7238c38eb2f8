import LedgerFeed.Config.Validation
import LedgerFeed.Event.Decoder
import LedgerFeed.Node.Basic

/-! Why an engine refuses an operation or a run fails. -/

namespace LedgerFeed

inductive IngestError where
  | invalidConfig (faults : List ConfigFault)
  | archiveNotBound
  | alreadyRunning
  | archiveAlreadyBound (endpoint : String)
  | notRetained (start oldestAvailable latest : LedgerNumber)
  | aheadOfTip (start latest : LedgerNumber)
  | invertedRange (start stop : LedgerNumber)
  | archiveGap (ledger archiveLatest : LedgerNumber)
  | unhealthy (endpoint : String)
  | node (endpoint : String) (failure : NodeFailure)
  | decode (ledger : LedgerNumber) (error : DecodeError)
  | handler (eventId : String) (cause : String)
  | unexpected (cause : String)
  deriving DecidableEq

inductive ErrorKind where
  | configuration
  | stateConflict
  | range
  | sourceUnavailable
  | unexpected
  deriving DecidableEq

namespace IngestError

def kind : IngestError → ErrorKind
  | invalidConfig _ | archiveNotBound => .configuration
  | alreadyRunning | archiveAlreadyBound _ => .stateConflict
  | notRetained .. | aheadOfTip .. | invertedRange .. | archiveGap .. => .range
  | unhealthy _ | node .. => .sourceUnavailable
  | decode .. | handler .. | unexpected _ => .unexpected

def cause? : IngestError → Option String
  | node _ failure => some failure.message
  | decode _ error => some error.message
  | handler _ cause => some cause
  | unexpected cause => some cause
  | _ => none

def message : IngestError → String
  | invalidConfig faults => s!"invalid configuration: {ConfigFault.texts faults}"
  | archiveNotBound => "no archive source is bound"
  | alreadyRunning => "an ingestion run is already in progress"
  | archiveAlreadyBound endpoint => s!"archive source is already bound to {endpoint}"
  | notRetained start oldest latest =>
    s!"ledger {start} is no longer retained (oldest available {oldest}, latest {latest})"
  | aheadOfTip start latest => s!"ledger {start} is ahead of the latest ledger {latest}"
  | invertedRange start stop => s!"start ledger {start} is after stop ledger {stop}"
  | archiveGap ledger latest =>
    s!"archive source has no ledger {ledger} (archive latest {latest})"
  | unhealthy endpoint => s!"source {endpoint} reports unhealthy"
  | node endpoint failure => s!"source {endpoint} request failed: {failure.message}"
  | decode ledger error => s!"failed to decode ledger {ledger} payload: {error.message}"
  | handler eventId cause => s!"event handler failed on {eventId}: {cause}"
  | unexpected cause => s!"unexpected error: {cause}"

end IngestError
end LedgerFeed
