import LedgerFeed.Event.Wire
import LedgerFeed.Filter.Basic

/-! The JSON form of filters. Conditions that are not set are left out, and the contracts have two
spellings. -/

namespace LedgerFeed.EventFilter

open Json (Value Dialect)
open Json.Value

def listField (name : String) (items : List Value) : List (String × Value) :=
  if items.isEmpty then [] else [(name, .array items)]

def toJson (f : EventFilter) : Value :=
  .object <|
    (match f.eventType with
      | none => []
      | some t => [("type", t.toJson)]) ++
    listField "contractIds" (f.contractIds.map .string) ++
    listField "topics" (f.topics.map ofTexts)

def ofValue? (dialect : Dialect) (v : Value) : Option EventFilter := do
  match ← v.recordIn? dialect [["type"], ["contractIds", "contract_ids"], ["topics"]] with
  | [eventType, contractIds, topics] =>
    return { eventType := ← optional none (nullable? (EventType.ofValue? dialect)) eventType
             contractIds := ← optional [] (list? text?) contractIds
             topics := ← optional [] (list? (list? text?)) topics }
  | _ => none

def ofJson? : Value → Option EventFilter :=
  ofValue? .json

end LedgerFeed.EventFilter
