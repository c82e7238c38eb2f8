import LedgerFeed.Run.Measurement

/-! The table that measurements add up to: counters that grow, and gauges that hold the last
value. -/

namespace LedgerFeed

structure Series where
  name : String
  labels : List (String × String)
  deriving DecidableEq

inductive Change where
  | grow (n : Nat)
  | put (n : Nat)
  deriving DecidableEq

namespace Measurement

def series : Measurement → Series
  | delivered feed => ⟨"ingest_events_delivered_total", [("mode", feed.name)]⟩
  | skipped reason => ⟨"ingest_events_skipped_total", [("reason", reason.name)]⟩
  | poll => ⟨"ingest_polls_total", []⟩
  | page feed => ⟨"ingest_pages_total", [("mode", feed.name)]⟩
  | backfilled _ => ⟨"ingest_backfill_ledgers_total", []⟩
  | cursor feed _ => ⟨"ingest_cursor_ledger", [("mode", feed.name)]⟩
  | nodeHealth endpoint _ => ⟨"ingest_source_healthy", [("endpoint", endpoint)]⟩
  | run kind outcome =>
    ⟨"ingest_runs_total", [("mode", kind.name), ("outcome", outcome.name)]⟩

def change : Measurement → Change
  | backfilled ledgers => .grow ledgers.toNat
  | cursor _ ledger => .put ledger.toNat
  | nodeHealth _ healthy => .put (if healthy then 1 else 0)
  | _ => .grow 1

end Measurement

def Change.apply (c : Change) (before : Nat) : Nat :=
  match c with
  | grow n => before + n
  | put n => n

abbrev Metrics := List (Series × Nat)

namespace Metrics

def value? (m : Metrics) (s : Series) : Option Nat :=
  m.lookup s

def record : Metrics → Measurement → Metrics
  | [], x => [(x.series, x.change.apply 0)]
  | (s, n) :: rest, x =>
    if s = x.series then (s, x.change.apply n) :: rest else (s, n) :: record rest x

def recordAll (m : Metrics) (xs : List Measurement) : Metrics :=
  xs.foldl record m

theorem value?_record_self (m : Metrics) (x : Measurement) :
    (m.record x).value? x.series = some (x.change.apply ((m.value? x.series).getD 0)) := by
  induction m with
  | nil => simp [record, value?]
  | cons entry rest ih =>
    obtain ⟨s, n⟩ := entry
    by_cases h : s = x.series
    · simp [record, value?, h]
    · have hne : (x.series == s) = false := by simpa using Ne.symm h
      simpa [record, value?, List.lookup_cons, h, hne] using ih

theorem value?_record_of_ne (m : Metrics) {x : Measurement} {s : Series} (h : s ≠ x.series) :
    (m.record x).value? s = m.value? s := by
  have hne : (s == x.series) = false := by simpa using h
  induction m with
  | nil => simp [record, value?, List.lookup_cons, hne]
  | cons entry rest ih =>
    obtain ⟨t, n⟩ := entry
    by_cases ht : t = x.series
    · simp [record, value?, List.lookup_cons, ht, hne]
    · simp only [record, if_neg ht, value?, List.lookup_cons]
      split
      · rfl
      · exact ih

end Metrics
end LedgerFeed
