import LedgerFeed.Engine.Basic

/-! Scripted nodes: they serve events and ledgers from a store, report one retention window after
the other, and may react to a call with actions, a delay, a failure or an answer of their own. -/

namespace LedgerFeed.Rehearsal

inductive Action where
  | stop
  | state
  | setFilters (filters : List EventFilter)
  | clearFilters
  | bindArchive (node : Nat)
  | start (request : RunRequest)

structure Window where
  oldest : LedgerNumber
  latest : LedgerNumber
  healthy : Bool

def Window.health (w : Window) : Health :=
  ⟨w.healthy, w.oldest, w.latest, w.latest.above w.oldest⟩

structure Reaction (α : Type) where
  actions : List Action
  delay : Nat
  answer : Option (Except NodeFailure α)

structure Node where
  endpoint : String
  windows : List Window
  fills : List (LedgerNumber × LedgerNumber × Nat)
  events : List RawEvent
  ledgers : List RawLedger
  overlap : Nat
  onHealth : List (Reaction Health)
  onEvents : List (Reaction EventsPage)
  onLedgers : List (Reaction LedgersPage)
  calls : Nat

def padded (width n : Nat) : String :=
  let digits := Decimal.text n
  String.ofList (List.replicate (width - digits.length) '0') ++ digits

def generatedEvent (ledger : LedgerNumber) (index : Nat) : RawEvent where
  typeName := "contract"
  ledger
  ledgerClosedAt := "2026-01-01T00:00:00Z"
  contractId := "CTOKEN"
  id := s!"{padded 12 ledger.toNat}-{padded 4 index}"
  topic := ["transfer"]
  value := "AAAAAQ=="
  inSuccessfulContractCall := true
  txHash := s!"tx-{ledger}-{index}"

def generatedEvents (ledger : LedgerNumber) (count : Nat) : List RawEvent :=
  (List.range count).map (generatedEvent ledger)

def generatedLedger (sequence : LedgerNumber) (count : Nat) : RawLedger where
  sequence
  hash := s!"hash-{sequence}"
  closeTime := "1767225600"
  metadata := ""
  events := generatedEvents sequence count

def inSequence (ledgers : List RawLedger) : List RawLedger :=
  let sorted := ledgers.mergeSort fun a b => a.sequence ≤ b.sequence
  (sorted.zip (sorted.drop 1 |>.map (some ·.sequence) |>.append [none])).filterMap
    fun (l, next) => if next = some l.sequence then none else some l

namespace Node

def eventsOf (n : Node) (ledger : LedgerNumber) : List RawEvent :=
  (n.fills.flatMap fun (first, last, count) =>
    if first ≤ ledger ∧ ledger ≤ last then generatedEvents ledger count else []) ++
  n.events.filter fun e => e.ledger = ledger

def window (n : Node) : Window :=
  n.windows.head?.getD ⟨0, 0, true⟩

def nextWindow (n : Node) : Node :=
  match n.windows with
  | _ :: w :: rest => { n with windows := w :: rest }
  | _ => n

def position (r : EventsRequest) : LedgerNumber × Nat :=
  match r.cursor.map fun c => c.toList.splitOn ':' with
  | some [ledger, offset] =>
    match Decimal.value? ledger, Decimal.value? offset with
    | some ledger, some offset => (UInt32.ofNat ledger, offset)
    | _, _ => (0, 0)
  | some _ => (0, 0)
  | none => (r.start.getD 0, 0)

def eventsPage (n : Node) (r : EventsRequest) : EventsPage :=
  let (ledger, offset) := position r
  let remaining := (n.eventsOf ledger).drop offset
  let page := remaining.take r.limit.toNat
  let more := page.length = r.limit.toNat ∧ page.length < remaining.length
  { events := page
    latest := n.window.latest
    cursor :=
      if more then some s!"{ledger}:{offset + page.length - n.overlap}" else none }

def ledgersPage (n : Node) (r : LedgersRequest) : LedgersPage where
  ledgers := (n.ledgers.dropWhile fun l => l.sequence < r.start).take r.limit.toNat
  latest := (n.ledgers.getLast?.map RawLedger.sequence).getD 0
  oldest := (n.ledgers.head?.map RawLedger.sequence).getD 0

end Node
end LedgerFeed.Rehearsal
