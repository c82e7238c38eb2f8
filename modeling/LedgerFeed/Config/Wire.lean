import LedgerFeed.Config.Basic
import LedgerFeed.Filter.Wire

/-! The written form of configurations. Every field has a default, and all are written out. -/

namespace LedgerFeed

open Json (Value Dialect)
open Json.Value

namespace EngineConfig

def toJson (c : EngineConfig) : Value :=
  .object
    [ ("live_url", .string c.liveUrl),
      ("archive_url", ofOption .string c.archiveUrl),
      ("filters", .array (c.filters.map EventFilter.toJson)),
      ("page_size", ofUInt32 c.pageSize),
      ("live_wait_interval_ms", ofUInt64 c.liveWait),
      ("paging_interval_ms", ofUInt64 c.pagingWait),
      ("archival_interval_ms", ofUInt64 c.archivalWait),
      ("skip_wait_if_behind", .bool c.skipWaitIfBehind),
      ("retention_safety_margin", ofUInt32 c.retentionMargin),
      ("dedup_capacity", ofUInt64 c.dedupCapacity),
      ("rpc_timeout_secs", ofUInt64 c.timeoutSeconds) ]

def ofValue? (dialect : Dialect) (v : Value) : Option EngineConfig := do
  let fields ← v.recordIn? dialect
    [ ["live_url"], ["archive_url"], ["filters"], ["page_size"], ["live_wait_interval_ms"],
      ["paging_interval_ms"], ["archival_interval_ms"], ["skip_wait_if_behind"],
      ["retention_safety_margin"], ["dedup_capacity"], ["rpc_timeout_secs"] ]
  match fields with
  | [liveUrl, archiveUrl, filters, pageSize, liveWait, pagingWait, archivalWait, skipWait,
      margin, capacity, timeout] =>
    return { liveUrl := ← optional default.liveUrl text? liveUrl
             archiveUrl := ← optional default.archiveUrl (nullable? text?) archiveUrl
             filters := ← optional default.filters (list? (EventFilter.ofValue? dialect)) filters
             pageSize := ← optional default.pageSize uint32? pageSize
             liveWait := ← optional default.liveWait uint64? liveWait
             pagingWait := ← optional default.pagingWait uint64? pagingWait
             archivalWait := ← optional default.archivalWait uint64? archivalWait
             skipWaitIfBehind := ← optional default.skipWaitIfBehind bool? skipWait
             retentionMargin := ← optional default.retentionMargin uint32? margin
             dedupCapacity := ← optional default.dedupCapacity uint64? capacity
             timeoutSeconds := ← optional default.timeoutSeconds uint64? timeout }
  | _ => none

def ofJson? : Value → Option EngineConfig :=
  ofValue? .json

end EngineConfig

namespace Observability

def toJson (o : Observability) : Value :=
  .object
    [ ("log_level", .string o.logLevel),
      ("metrics_enabled", .bool o.metricsEnabled),
      ("metrics_address", .string o.metricsAddress) ]

def ofValue? (dialect : Dialect) (v : Value) : Option Observability := do
  match ← v.recordIn? dialect [["log_level"], ["metrics_enabled"], ["metrics_address"]] with
  | [logLevel, metricsEnabled, metricsAddress] =>
    return { logLevel := ← optional default.logLevel text? logLevel
             metricsEnabled := ← optional default.metricsEnabled bool? metricsEnabled
             metricsAddress := ← optional default.metricsAddress text? metricsAddress }
  | _ => none

end Observability

namespace FeedConfig

def toJson (c : FeedConfig) : Value :=
  .object [("engine", c.engine.toJson), ("observability", c.observability.toJson)]

def ofValue? (dialect : Dialect) (v : Value) : Option FeedConfig := do
  match ← v.recordIn? dialect [["engine"], ["observability"]] with
  | [engine, observability] =>
    return { engine := ← optional default.engine (EngineConfig.ofValue? dialect) engine
             observability :=
               ← optional default.observability (Observability.ofValue? dialect) observability }
  | _ => none

def ofJson? : Value → Option FeedConfig :=
  ofValue? .json

end FeedConfig
end LedgerFeed
