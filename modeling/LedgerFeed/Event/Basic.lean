import LedgerFeed.Ledger.Number

/-! Events as a node sends them, ledgers with their events, and the decoded form that reaches a
handler. -/

namespace LedgerFeed

inductive EventType where
  | contract
  | system
  | diagnostic
  deriving DecidableEq

namespace EventType

def name : EventType → String
  | contract => "contract"
  | system => "system"
  | diagnostic => "diagnostic"

def ofName? : String → Option EventType
  | "contract" => some contract
  | "system" => some system
  | "diagnostic" => some diagnostic
  | _ => none

@[simp] theorem ofName?_name (t : EventType) : ofName? t.name = some t := by
  cases t <;> rfl

end EventType

structure RawEvent where
  typeName : String
  ledger : LedgerNumber
  ledgerClosedAt : String
  contractId : String
  id : String
  topic : List String
  value : String
  inSuccessfulContractCall : Bool
  txHash : String
  deriving DecidableEq

structure RawLedger where
  sequence : LedgerNumber
  hash : String
  closeTime : String
  metadata : String
  events : List RawEvent
  deriving DecidableEq

structure ContractEvent where
  id : String
  eventType : EventType
  ledger : LedgerNumber
  ledgerClosedAt : String
  contractId : Option String
  topics : List String
  value : String
  inSuccessfulContractCall : Bool
  txHash : String
  deriving DecidableEq

end LedgerFeed
