import LedgerFeed.Rehearsal.Stage

/-! Scripts: a rehearsal is a list of steps, each of which gives one answer. -/

namespace LedgerFeed.Rehearsal

inductive Step where
  | start (request : RunRequest) (rules : List Rule) (during : List (Nat × List Action))
  | stop
  | setFilters (filters : List EventFilter)
  | clearFilters
  | reload (filters : List EventFilter)
  | setArchive (endpoint : String)
  | bindArchive (node : Nat)
  | health (role : NodeRole)
  | info

inductive Report where
  | run (result : Except IngestError Summary)
  | state
  | operation (result : Except IngestError Unit)
  | filters
  | archive (result : Except IngestError Unit)
  | health (result : Except IngestError Health)
  | info

namespace Play

def health (role : NodeRole) : Play (Except IngestError Health) := do
  let e ← engine
  let endpoint? := match role with
    | .live => some e.live
    | .archive => e.archive
  match endpoint? with
  | none => return .error .archiveNotBound
  | some endpoint =>
    match ← callHealth (start none) (← nodeOf role) with
    | .error failure => return .error (.node endpoint failure)
    | .ok health => return .ok health

def step : Step → Play Report
  | .start request rules during => do
    let begun := (← get).now
    let agenda := during.mergeSort (fun a b => a.1 ≤ b.1) |>.map fun (t, as) => (begun + t, as)
    modify fun s => { s with agenda }
    let result ← start (some ⟨rules, 0⟩) request
    modify fun s => { s with agenda := [] }
    return .run result
  | .stop => do
    setEngine (← engine).stop
    return .state
  | .setFilters filters => do
    return .operation (← attempt ((← engine).setFilters filters))
  | .clearFilters => do
    setEngine (← engine).clearFilters
    return .filters
  | .reload filters => do
    setEngine ((← engine).reload filters)
    return .filters
  | .setArchive endpoint => do
    let result ← attempt ((← engine).setArchive endpoint)
    if result.isOk then modify fun s => { s with archive := some (.remote endpoint) }
    return .archive result
  | .bindArchive node => do
    return .archive (← bindArchive node)
  | .health role => do
    return .health (← health role)
  | .info => return .info

def answerStep (s : Step) : Play (Report × Stage) := do
  modify fun stage => { stage with trace := [] }
  let report ← step s
  return (report, ← get)

end Play

structure Script where
  config : EngineConfig
  urls : Net.UrlReader
  decoder : Decoder
  nodes : Array Node
  live : Option Nat
  archive : Option Nat
  steps : List Step

def Script.stage (s : Script) : Except IngestError Stage := do
  let live := s.live.bind fun i => s.nodes[i]?.map Node.endpoint
  let engine ← Engine.ofConfig s.urls s.config live s.decoder
  let stage : Stage :=
    { engine
      nodes := s.nodes
      live := match s.live with
        | some i => .scripted i
        | none => .remote s.config.liveUrl
      archive := s.config.archiveUrl.map .remote
      handler := none
      now := 0
      agenda := []
      trace := []
      metrics := [] }
  match s.archive with
  | none => return stage
  | some i => return (StateT.run (Play.bindArchive i) stage).2

def Script.play (s : Script) : Except IngestError (List (Report × Stage)) := do
  let stage ← s.stage
  return (StateT.run (s.steps.mapM Play.answerStep) stage).1

end LedgerFeed.Rehearsal
