import LedgerFeed.Event.Basic
import LedgerFeed.Json.Record

/-! The JSON forms of events and ledgers. Nodes may leave out most fields of what they send, but
everything is written out. -/

namespace LedgerFeed

open Json (Value Dialect)
open Json.Value

namespace EventType

def toJson (t : EventType) : Value :=
  .string t.name

def ofValue? (dialect : Dialect) : Value → Option EventType
  | .string name => ofName? name
  | .object [(name, v)] => if dialect.isVoid v then ofName? name else none
  | _ => none

end EventType

namespace RawEvent

def toJson (e : RawEvent) : Value :=
  .object
    [ ("type", .string e.typeName),
      ("ledger", ofUInt32 e.ledger),
      ("ledgerClosedAt", .string e.ledgerClosedAt),
      ("contractId", .string e.contractId),
      ("id", .string e.id),
      ("topic", ofTexts e.topic),
      ("value", .string e.value),
      ("inSuccessfulContractCall", .bool e.inSuccessfulContractCall),
      ("txHash", .string e.txHash) ]

def ofJson? (v : Value) : Option RawEvent := do
  let fields ← v.record?
    [ ["type"], ["ledger"], ["ledgerClosedAt"], ["contractId"], ["id"], ["topic"], ["value"],
      ["inSuccessfulContractCall"], ["txHash"] ]
  match fields with
  | [typeName, ledger, closedAt, contractId, id, topic, value, successful, txHash] =>
    return { typeName := ← required text? typeName
             ledger := ← required uint32? ledger
             ledgerClosedAt := ← optional "" text? closedAt
             contractId := ← optional "" text? contractId
             id := ← required text? id
             topic := ← optional [] (list? text?) topic
             value := ← optional "" text? value
             inSuccessfulContractCall := ← optional false bool? successful
             txHash := ← optional "" text? txHash }
  | _ => none

end RawEvent

namespace RawLedger

def toJson (l : RawLedger) : Value :=
  .object
    [ ("sequence", ofUInt32 l.sequence),
      ("hash", .string l.hash),
      ("ledgerCloseTime", .string l.closeTime),
      ("metadataXdr", .string l.metadata),
      ("events", .array (l.events.map RawEvent.toJson)) ]

def ofJson? (v : Value) : Option RawLedger := do
  let fields ← v.record?
    [["sequence"], ["hash"], ["ledgerCloseTime"], ["metadataXdr"], ["events"]]
  match fields with
  | [sequence, hash, closeTime, metadata, events] =>
    return { sequence := ← required uint32? sequence
             hash := ← optional "" text? hash
             closeTime := ← optional "" text? closeTime
             metadata := ← optional "" text? metadata
             events := ← optional [] (list? RawEvent.ofJson?) events }
  | _ => none

end RawLedger

namespace ContractEvent

def toJson (e : ContractEvent) : Value :=
  .object
    [ ("id", .string e.id),
      ("event_type", e.eventType.toJson),
      ("ledger", ofUInt32 e.ledger),
      ("ledger_closed_at", .string e.ledgerClosedAt),
      ("contract_id", ofOption .string e.contractId),
      ("topics", ofTexts e.topics),
      ("value", .string e.value),
      ("in_successful_contract_call", .bool e.inSuccessfulContractCall),
      ("tx_hash", .string e.txHash) ]

def ofJson? (v : Value) : Option ContractEvent := do
  let fields ← v.record?
    [ ["id"], ["event_type"], ["ledger"], ["ledger_closed_at"], ["contract_id"], ["topics"],
      ["value"], ["in_successful_contract_call"], ["tx_hash"] ]
  match fields with
  | [id, eventType, ledger, closedAt, contractId, topics, value, successful, txHash] =>
    return { id := ← required text? id
             eventType := ← required (EventType.ofValue? .json) eventType
             ledger := ← required uint32? ledger
             ledgerClosedAt := ← required text? closedAt
             contractId := ← optional none (nullable? text?) contractId
             topics := ← required (list? text?) topics
             value := ← required text? value
             inSuccessfulContractCall := ← required bool? successful
             txHash := ← required text? txHash }
  | _ => none

def line (e : ContractEvent) : String :=
  e.toJson.print

def printed (e : ContractEvent) : String :=
  e.line.push '\n'

end ContractEvent
end LedgerFeed
