import LedgerFeed.Event.Basic

/-! Decoding. An event needs an id and a known type, and a contract event its contract. A ledger
may hold only events of its own number. -/

namespace LedgerFeed

inductive EventField where
  | id
  | contractId
  deriving DecidableEq

def EventField.name : EventField → String
  | id => "id"
  | contractId => "contractId"

inductive DecodeError where
  | unknownEventType (typeName : String)
  | missingField (field : EventField)
  /-- An event that claims another ledger than the one it came in. -/
  | ledgerMismatch (id : String) (claimed ledger : LedgerNumber)
  deriving DecidableEq

def DecodeError.message : DecodeError → String
  | unknownEventType typeName => s!"unknown event type '{typeName}'"
  | missingField field => s!"event is missing required field '{field.name}'"
  | ledgerMismatch id claimed ledger =>
    s!"event {id} claims ledger {claimed} but was found in ledger {ledger}"

structure Decoder where
  decode : RawEvent → Except DecodeError ContractEvent
  ledgerEvents : RawLedger → Except DecodeError (List RawEvent)

def RawEvent.decode (raw : RawEvent) : Except DecodeError ContractEvent :=
  if raw.id = "" then .error (.missingField .id)
  else
    match EventType.ofName? raw.typeName with
    | none => .error (.unknownEventType raw.typeName)
    | some eventType =>
      if eventType = .contract ∧ raw.contractId = "" then .error (.missingField .contractId)
      else
        .ok { id := raw.id
              eventType
              ledger := raw.ledger
              ledgerClosedAt := raw.ledgerClosedAt
              contractId := if raw.contractId = "" then none else some raw.contractId
              topics := raw.topic
              value := raw.value
              inSuccessfulContractCall := raw.inSuccessfulContractCall
              txHash := raw.txHash }

/-- The events of a ledger in order, unless one of them claims another ledger. -/
def RawLedger.ownEvents (ledger : RawLedger) : Except DecodeError (List RawEvent) :=
  match ledger.events.find? fun e => e.ledger ≠ ledger.sequence with
  | some stray => .error (.ledgerMismatch stray.id stray.ledger ledger.sequence)
  | none => .ok ledger.events

namespace Decoder

def standard : Decoder where
  decode := RawEvent.decode
  ledgerEvents := RawLedger.ownEvents

def relabelled (eventType : EventType) : Decoder where
  decode raw := raw.decode.map fun e => { e with eventType }
  ledgerEvents := RawLedger.ownEvents

end Decoder
end LedgerFeed
