import LedgerFeed.Engine.Control
import LedgerFeed.Node.Rpc
import LedgerFeed.Run.Step

/-! The engine: its configuration, the archive bound to it, the filters that are active, and the
gate. Anyone may operate it at any time; the one run that it lets in goes on by replies. -/

namespace LedgerFeed

structure Engine where
  config : EngineConfig
  urls : Net.UrlReader
  decoder : Decoder
  live : String
  archive : Option String
  filters : List EventFilter
  control : Control

structure Run where
  assignment : Assignment
  sink : Sink
  pending : Pending

structure Summary where
  outcome : Outcome
  delivered : UInt64
  resume : LedgerNumber
  deriving DecidableEq

structure Finished where
  result : Except IngestError Summary
  measured : List Measurement

inductive Flight where
  | over (finished : Finished)
  | underWay (run : Run)

namespace Engine

def connect (urls : Net.UrlReader) (fault : NodeFailure → ConfigFault) (endpoint : String)
    (timeoutSeconds : UInt64) : Except IngestError String :=
  match RpcClient.ofEndpoint urls endpoint timeoutSeconds with
  | .error failure => .error (.invalidConfig [fault failure])
  | .ok client => .ok client.endpoint

theorem connect_of_endpointFault? {urls : Net.UrlReader} {endpoint : String}
    (h : endpointFault? urls endpoint = none) (fault : NodeFailure → ConfigFault)
    (timeoutSeconds : UInt64) : connect urls fault endpoint timeoutSeconds = .ok endpoint := by
  cases hscheme : urls.scheme endpoint with
  | error why =>
    rw [endpointFault?, hscheme] at h
    cases h
  | ok scheme => rw [connect, RpcClient.ofEndpoint, hscheme]

def connectLive (urls : Net.UrlReader) (config : EngineConfig) :
    Option String → Except IngestError String
  | some endpoint => .ok endpoint
  | none => connect urls .liveClient config.liveUrl config.timeoutSeconds

def connectArchive (urls : Net.UrlReader) (config : EngineConfig) :
    Except IngestError (Option String) :=
  match config.archiveUrl with
  | none => .ok none
  | some url => (connect urls .archiveClient url config.timeoutSeconds).map some

/-- An engine for a configuration without faults. A live node given by name takes the place of the
configured one. -/
def ofConfig (urls : Net.UrlReader) (config : EngineConfig) (live : Option String)
    (decoder : Decoder) : Except IngestError Engine :=
  if config.faults urls = [] then do
    let live ← connectLive urls config live
    let archive ← connectArchive urls config
    return { config
             urls
             decoder
             live
             archive
             filters := config.filters
             control := .initial }
  else .error (.invalidConfig (config.faults urls))

def isRunning (e : Engine) : Bool :=
  e.control.isRunning

def stop (e : Engine) : Engine :=
  { e with control := e.control.requestStop }

def setFilters (e : Engine) (filters : List EventFilter) : Except IngestError Engine :=
  match filterSetFault? filters with
  | some fault => .error (.invalidConfig [.filters fault])
  | none => .ok { e with filters }

def clearFilters (e : Engine) : Engine :=
  { e with filters := [] }

/-- Takes filters from a changed configuration file; those that nodes refuse change nothing. -/
def reload (e : Engine) (filters : List EventFilter) : Engine :=
  if filters = e.filters then e
  else
    match e.setFilters filters with
    | .ok e => e
    | .error _ => e

def bindArchive (e : Engine) (endpoint : String) : Except IngestError Engine :=
  match e.archive with
  | some bound => .error (.archiveAlreadyBound bound)
  | none => .ok { e with archive := some endpoint }

def setArchive (e : Engine) (endpoint : String) : Except IngestError Engine :=
  match e.archive with
  | some bound => .error (.archiveAlreadyBound bound)
  | none =>
    match endpointFault? e.urls endpoint with
    | some fault => .error (.invalidConfig [.archiveUrl endpoint fault])
    | none =>
      match connect e.urls .archiveClient endpoint e.config.timeoutSeconds with
      | .error error => .error error
      | .ok endpoint => e.bindArchive endpoint

theorem setArchive_eq (e : Engine) (endpoint : String) :
    e.setArchive endpoint =
      match e.archive with
      | some bound => .error (.archiveAlreadyBound bound)
      | none =>
        match endpointFault? e.urls endpoint with
        | some fault => .error (.invalidConfig [.archiveUrl endpoint fault])
        | none => e.bindArchive endpoint := by
  unfold setArchive
  cases e.archive with
  | some bound => rfl
  | none =>
    cases hfault : endpointFault? e.urls endpoint with
    | some fault => rfl
    | none => rw [connect_of_endpointFault? hfault]

def signals (e : Engine) : Signals :=
  ⟨e.control.stop, e.filters⟩

/-- The assignment of a run that begins now. A live run does without the archive. -/
def assign (e : Engine) (request : RunRequest) : Assignment where
  request
  config := e.config
  decoder := e.decoder
  live := e.live
  archive :=
    match request with
    | .live .. => none
    | _ => e.archive

def allow (e : Engine) (request : RunRequest) : Except IngestError Unit := do
  request.check
  if request.kind = .archive ∧ e.archive = none then .error .archiveNotBound

def finish (kind : RunKind) (sink : Sink) : Except IngestError Exit → Finished
  | .ok exit =>
    let outcome := match exit.outcome with
      | .completed => .completed
      | .stopped => .stopped
    ⟨.ok ⟨exit.outcome, sink.delivered, exit.resume⟩, .run kind outcome :: sink.measured⟩
  | .error error => ⟨.error error, .run kind .failed :: sink.measured⟩

def settle (e : Engine) (assignment : Assignment) : Progress → Engine × Flight
  | .ended sink result =>
    ({ e with control := e.control.release },
      .over (finish assignment.request.kind sink result))
  | .waiting sink pending => (e, .underWay ⟨assignment, sink, pending⟩)

def start (e : Engine) (request : RunRequest) : Engine × Except IngestError Flight :=
  match e.control.enter? with
  | none => (e, .error .alreadyRunning)
  | some entered =>
    match e.allow request with
    | .error error => ({ e with control := entered.release }, .error error)
    | .ok _ =>
      let e := { e with control := entered.clearStop.activate }
      let assignment := e.assign request
      let (e, flight) := e.settle assignment assignment.begin
      (e, .ok flight)

def reply (e : Engine) (run : Run) (answer : (run.pending.question run.assignment).Reply) :
    Engine × Flight :=
  e.settle run.assignment (run.assignment.resume e.signals run.sink run.pending answer)

end Engine
end LedgerFeed
