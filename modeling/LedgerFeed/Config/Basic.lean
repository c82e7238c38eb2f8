import LedgerFeed.Filter.Basic

/-! The configuration of an engine and of the program about it, with its defaults. -/

namespace LedgerFeed

/-- Endpoints, first filters and tunables of an engine. Intervals are in milliseconds. -/
structure EngineConfig where
  liveUrl : String
  archiveUrl : Option String
  filters : List EventFilter
  pageSize : UInt32
  liveWait : UInt64
  pagingWait : UInt64
  archivalWait : UInt64
  skipWaitIfBehind : Bool
  retentionMargin : UInt32
  dedupCapacity : UInt64
  timeoutSeconds : UInt64
  deriving DecidableEq

namespace EngineConfig

def default : EngineConfig where
  liveUrl := "http://localhost:8000"
  archiveUrl := none
  filters := []
  pageSize := 100
  liveWait := 5000
  pagingWait := 100
  archivalWait := 500
  skipWaitIfBehind := true
  retentionMargin := 10
  dedupCapacity := 25
  timeoutSeconds := 30

def ofLiveUrl (url : String) : EngineConfig :=
  { default with liveUrl := url }

end EngineConfig

structure Observability where
  logLevel : String
  metricsEnabled : Bool
  metricsAddress : String
  deriving DecidableEq

def Observability.default : Observability where
  logLevel := "info"
  metricsEnabled := false
  metricsAddress := "0.0.0.0:9090"

structure FeedConfig where
  engine : EngineConfig
  observability : Observability
  deriving DecidableEq

def FeedConfig.default : FeedConfig :=
  ⟨.default, .default⟩

end LedgerFeed
