import LedgerFeed.Event.Wire
import LedgerFeed.Filter.Wire
import LedgerFeed.Json.Bytes
import LedgerFeed.Net.Url
import LedgerFeed.Node.Basic
import LedgerFeed.Run.Measurement
import LedgerFeed.Text.Quoted

/-! JSON-RPC: the calls that a node understands, and what comes of the one HTTP exchange that a
call makes. -/

namespace LedgerFeed

open Json (Value)
open Json.Value

inductive Exchange where
  | unreachable (cause : String)
  | timedOut
  | answered (status : UInt16) (body : Option ByteArray)

structure RpcClient where
  endpoint : String
  timeoutSeconds : UInt64
  deriving DecidableEq

inductive RpcCall where
  | health
  | events (request : EventsRequest)
  | ledgers (request : LedgersRequest)
  deriving DecidableEq

namespace RpcCall

def Result : RpcCall → Type
  | health => Health
  | events _ => EventsPage
  | ledgers _ => LedgersPage

def method : RpcCall → String
  | health => "getHealth"
  | events _ => "getEvents"
  | ledgers _ => "getLedgers"

def optionField (name : String) (value : Option Value) : List (String × Value) :=
  value.toList.map (name, ·)

def params : RpcCall → Value
  | health => .null
  | events r =>
    .object <|
      optionField "startLedger" (r.start.map ofUInt32) ++
      optionField "endLedger" (r.stop.map ofUInt32) ++
      [ ("filters", .array (r.filters.map EventFilter.toJson)),
        ("pagination",
          .object (optionField "cursor" (r.cursor.map .string) ++ [("limit", ofUInt32 r.limit)])) ]
  | ledgers r =>
    .object
      [ ("startLedger", ofUInt32 r.start),
        ("pagination", .object [("limit", ofUInt32 r.limit)]) ]

def body (call : RpcCall) (id : String) : Value :=
  .object
    [ ("jsonrpc", .string "2.0"),
      ("id", .string id),
      ("method", .string call.method),
      ("params", call.params) ]

def isHealthy (status : String) : Bool :=
  status.toList.map Char.toLower = "healthy".toList

def health? (v : Value) : Option Health := do
  let fields ← v.record?
    [["status"], ["latestLedger"], ["oldestLedger"], ["ledgerRetentionWindow"]]
  match fields with
  | [status, latest, oldest, window] =>
    return { healthy := isHealthy (← required text? status)
             latest := ← required uint32? latest
             oldest := ← required uint32? oldest
             window := ← optional 0 uint32? window }
  | _ => none

/-- A page of events. Nodes always give a cursor, but only after a full page does more remain. -/
def eventsPage? (limit : UInt32) (v : Value) : Option EventsPage := do
  match ← v.record? [["events"], ["latestLedger"], ["cursor"]] with
  | [items, latest, cursor] =>
    let items ← optional [] (list? RawEvent.ofJson?) items
    let cursor ← optional none (nullable? text?) cursor
    return { events := items
             latest := ← required uint32? latest
             cursor := cursor.filter fun c => limit.toNat ≤ items.length && c ≠ "" }
  | _ => none

def ledgersPage? (v : Value) : Option LedgersPage := do
  match ← v.record? [["ledgers"], ["latestLedger"], ["oldestLedger"]] with
  | [items, latest, oldest] =>
    return { ledgers := ← optional [] (list? RawLedger.ofJson?) items
             latest := ← required uint32? latest
             oldest := ← optional 0 uint32? oldest }
  | _ => none

def result? : (call : RpcCall) → Value → Option call.Result
  | health, v => health? v
  | events r, v => eventsPage? r.limit v
  | ledgers _, v => ledgersPage? v

def errorObject? (v : Value) : Option (Int64 × String) := do
  match ← v.record? [["code"], ["message"]] with
  | [code, message] => return (← required int64? code, ← required text? message)
  | _ => none

/-- The result and the error of an answer, either of which may be missing or null. Given by
position, both must be there. -/
def answer? (call : RpcCall) (v : Value) : Option (Option call.Result × Option (Int64 × String)) :=
  do
  match v with
  | .array items => guard (items.length = 2)
  | _ => pure ()
  match ← v.record? [["result"], ["error"]] with
  | [result, error] =>
    return (← optional none (nullable? call.result?) result,
      ← optional none (nullable? errorObject?) error)
  | _ => none

def ofBody (call : RpcCall) (body : Option ByteArray) : Except NodeFailure call.Result :=
  match (body.bind Json.ofBytes?).bind call.answer? with
  | none => .error (.invalid "error decoding response body")
  | some (_, some (code, message)) => .error (.rpc code message)
  | some (some result, none) => .ok result
  | some (none, none) => .error (.invalid s!"{call.method} returned no result")

end RpcCall

namespace RpcClient

def ofEndpoint (urls : Net.UrlReader) (endpoint : String) (timeoutSeconds : UInt64) :
    Except NodeFailure RpcClient :=
  match urls.scheme endpoint with
  | .error why => .error (.transport s!"Invalid RPC URL '{endpoint}': {why}")
  | .ok _ => .ok { endpoint, timeoutSeconds }

def description (c : RpcClient) : String :=
  s!"RpcClient \x7b endpoint: {Quoted.text c.endpoint}, timeout_secs: {c.timeoutSeconds} \x7d"

def conclude (c : RpcClient) (call : RpcCall) : Exchange → Except NodeFailure call.Result
  | .unreachable cause => .error (.transport cause)
  | .timedOut => .error (.timeout c.timeoutSeconds)
  | .answered status body =>
    if 200 ≤ status ∧ status < 300 then call.ofBody body else .error (.http status)

def measured (c : RpcClient) : (call : RpcCall) → Except NodeFailure call.Result → List Measurement
  | .health, .ok (health : Health) => [.nodeHealth c.endpoint health.healthy]
  | _, _ => []

end RpcClient
end LedgerFeed
