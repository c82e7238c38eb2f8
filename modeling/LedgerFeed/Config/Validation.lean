import LedgerFeed.Config.Basic
import LedgerFeed.Filter.Limits
import LedgerFeed.Net.Address
import LedgerFeed.Net.Url
import LedgerFeed.Node.Basic

/-! Which configurations can run. Every fault is reported, in the order of the fields. -/

namespace LedgerFeed

inductive EndpointFault where
  | noUrl (why : String)
  | scheme (scheme : String)
  deriving DecidableEq

inductive ConfigFault where
  | liveUrl (url : String) (fault : EndpointFault)
  | archiveUrl (url : String) (fault : EndpointFault)
  | pageSize (size : UInt32)
  | pagingWait (paging live : UInt64)
  | dedupCapacity
  | timeoutSeconds
  | filters (fault : FilterSetFault)
  | metricsAddress (address : String)
  | liveClient (failure : NodeFailure)
  | archiveClient (failure : NodeFailure)
  deriving DecidableEq

def EngineConfig.maxPageSize : UInt32 := 10000

def EndpointFault.message (url : String) : EndpointFault → String
  | noUrl why => s!"invalid URL '{url}': {why}"
  | scheme name => s!"unsupported scheme '{name}' in '{url}'"

namespace ConfigFault

def field : ConfigFault → String
  | liveUrl .. => "live_url"
  | archiveUrl .. => "archive_url"
  | pageSize .. => "page_size"
  | pagingWait .. => "paging_interval_ms"
  | dedupCapacity => "dedup_capacity"
  | timeoutSeconds => "rpc_timeout_secs"
  | filters .. => "filters"
  | metricsAddress .. => "observability.metrics_address"
  | liveClient .. => "live_url"
  | archiveClient .. => "archive_url"

def message : ConfigFault → String
  | liveUrl url fault => fault.message url
  | archiveUrl url fault => fault.message url
  | pageSize size => s!"must be between 1 and {EngineConfig.maxPageSize}, got {size}"
  | pagingWait paging live =>
    s!"paging interval {paging}ms exceeds live wait interval {live}ms"
  | dedupCapacity => "must be at least 1"
  | timeoutSeconds => "must be greater than 0"
  | filters fault => fault.message
  | metricsAddress address => s!"'{address}' is not a socket address"
  | liveClient failure | archiveClient failure => failure.message

def text (f : ConfigFault) : String :=
  s!"{f.field}: {f.message}"

def texts (faults : List ConfigFault) : String :=
  ", ".intercalate (faults.map text)

end ConfigFault

def endpointFault? (urls : Net.UrlReader) (url : String) : Option EndpointFault :=
  match urls.scheme url with
  | .error why => some (.noUrl why)
  | .ok scheme => if scheme = "http" ∨ scheme = "https" then none else some (.scheme scheme)

namespace EngineConfig

inductive Condition where
  | liveUrl
  | archiveUrl
  | pageSize
  | pagingWait
  | dedupCapacity
  | timeoutSeconds
  | filters
  deriving DecidableEq

namespace Condition

def all : List Condition :=
  [liveUrl, archiveUrl, pageSize, pagingWait, dedupCapacity, timeoutSeconds, filters]

def fault? (urls : Net.UrlReader) (c : EngineConfig) : Condition → Option ConfigFault
  | liveUrl => (endpointFault? urls c.liveUrl).map (.liveUrl c.liveUrl)
  | archiveUrl => c.archiveUrl.bind fun url => (endpointFault? urls url).map (.archiveUrl url)
  | pageSize =>
    if c.pageSize = 0 ∨ maxPageSize < c.pageSize then some (.pageSize c.pageSize) else none
  | pagingWait =>
    if c.liveWait < c.pagingWait then some (.pagingWait c.pagingWait c.liveWait) else none
  | dedupCapacity => if c.dedupCapacity = 0 then some .dedupCapacity else none
  | timeoutSeconds => if c.timeoutSeconds = 0 then some .timeoutSeconds else none
  | filters => (filterSetFault? c.filters).map .filters

end Condition

def faults (urls : Net.UrlReader) (c : EngineConfig) : List ConfigFault :=
  Condition.all.filterMap (Condition.fault? urls c)

end EngineConfig

def Observability.faults (o : Observability) : List ConfigFault :=
  if o.metricsEnabled && !Net.isSocketAddress o.metricsAddress then
    [.metricsAddress o.metricsAddress]
  else []

def FeedConfig.faults (urls : Net.UrlReader) (c : FeedConfig) : List ConfigFault :=
  c.engine.faults urls ++ c.observability.faults

end LedgerFeed
