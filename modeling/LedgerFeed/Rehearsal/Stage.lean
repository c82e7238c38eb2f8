import LedgerFeed.Rehearsal.Node
import LedgerFeed.Run.Metrics

/-! The stage of a rehearsal: one engine, scripted nodes, a scripted handler and a clock that moves
only when everything waits, straight to the next moment at which something happens. Runs are played
to their end, and what happens on the way is written down. -/

namespace LedgerFeed.Rehearsal

inductive NodeRef where
  | scripted (node : Nat)
  | remote (endpoint : String)

structure Rule where
  call : Option Nat
  eventId : Option String
  actions : List Action
  delay : Nat
  panic : Option (Option String)
  atOnce : Bool
  failure : Option String

structure Handler where
  rules : List Rule
  calls : Nat

inductive ActionResult where
  | none
  | state (running : Bool)
  | done (result : Except IngestError Unit)
  | run (result : Except IngestError Summary)

inductive Entry where
  | health (endpoint : String)
  | events (endpoint : String) (request : EventsRequest)
  | ledgers (endpoint : String) (request : LedgersRequest)
  | deliver (event : ContractEvent)
  | action (action : Action) (result : ActionResult)

structure Stage where
  engine : Engine
  nodes : Array Node
  live : NodeRef
  archive : Option NodeRef
  handler : Option Handler
  now : Nat
  agenda : List (Nat × List Action)
  trace : List (Nat × Entry)
  metrics : Metrics

abbrev Play := StateM Stage

abbrev Starter := RunRequest → Play (Except IngestError Summary)

namespace Play

def log (e : Entry) : Play Unit :=
  modify fun s => { s with trace := (s.now, e) :: s.trace }

def engine : Play Engine :=
  return (← get).engine

def setEngine (engine : Engine) : Play Unit :=
  modify fun s => { s with engine }

def attempt (result : Except IngestError Engine) : Play (Except IngestError Unit) :=
  match result with
  | .error e => return .error e
  | .ok engine => do
    setEngine engine
    return .ok ()

def bindArchive (node : Nat) : Play (Except IngestError Unit) := do
  let endpoint := ((← get).nodes[node]?.map Node.endpoint).getD ""
  let result ← attempt ((← engine).bindArchive endpoint)
  if result.isOk then modify fun s => { s with archive := some (.scripted node) }
  return result

def perform (starter : Starter) (a : Action) : Play Unit := do
  let result ← match a with
    | .stop =>
      setEngine (← engine).stop
      pure .none
    | .state => pure (.state (← engine).isRunning)
    | .setFilters filters => pure (.done (← attempt ((← engine).setFilters filters)))
    | .clearFilters =>
      setEngine (← engine).clearFilters
      pure .none
    | .bindArchive node => pure (.done (← bindArchive node))
    | .start request => pure (.run (← starter request))
  log (.action a result)

/-- Lets time pass until `deadline` while the agenda goes on. If it may be cut short, then by the
first thing on the agenda that leaves a stop requested. -/
def passUntil (starter : Starter) (mayEnd : Bool) (deadline : Nat) :
    List (Nat × List Action) → Play Unit
  | [] => modify fun s => { s with now := deadline, agenda := [] }
  | (moment, actions) :: rest =>
    if deadline < moment then
      modify fun s => { s with now := deadline, agenda := (moment, actions) :: rest }
    else do
      modify fun s => { s with now := moment }
      actions.forM (perform starter)
      if mayEnd && (← engine).control.stop then modify fun s => { s with agenda := rest }
      else passUntil starter mayEnd deadline rest

def pass (starter : Starter) (mayEnd : Bool) (milliseconds : Nat) : Play Unit := do
  if 0 < milliseconds then
    let s ← get
    passUntil starter mayEnd (s.now + milliseconds) s.agenda

def callLimit : Nat := 2000

def call {α : Type} (starter : Starter) (node : Nat) (entry : String → Entry)
    (take : Node → Option (Reaction α) × Node) (store : Node → α × Node) :
    Play (Except NodeFailure α) := do
  match (← get).nodes[node]? with
  | none => return .error (.transport "no such node")
  | some n =>
    log (entry n.endpoint)
    let (reaction?, n) := take n
    let n := { n with calls := n.calls + 1 }
    modify fun s => { s with nodes := s.nodes.setIfInBounds node n }
    if callLimit < n.calls then return .error (.transport "driver call limit")
    match reaction? with
    | none => pure ()
    | some reaction =>
      reaction.actions.forM (perform starter)
      pass starter false reaction.delay
    match reaction?.bind Reaction.answer with
    | some answer => return answer
    | none =>
      -- what the reaction did may have changed the node
      match (← get).nodes[node]? with
      | none => return .error (.transport "no such node")
      | some n =>
        let (answer, n) := store n
        modify fun s => { s with nodes := s.nodes.setIfInBounds node n }
        return .ok answer

def unreachable {α : Type} (endpoint : String) : Except NodeFailure α :=
  .error (.transport s!"error sending request for url ({endpoint})")

def callHealth (starter : Starter) : NodeRef → Play (Except NodeFailure Health)
  | .remote endpoint => return unreachable endpoint
  | .scripted node =>
    call starter node .health (fun n => (n.onHealth.head?, { n with onHealth := n.onHealth.tail }))
      fun n => (n.window.health, n.nextWindow)

def callEvents (starter : Starter) (r : EventsRequest) :
    NodeRef → Play (Except NodeFailure EventsPage)
  | .remote endpoint => return unreachable endpoint
  | .scripted node =>
    call starter node (fun endpoint => .events endpoint r)
      (fun n => (n.onEvents.head?, { n with onEvents := n.onEvents.tail }))
      fun n => (n.eventsPage r, n)

def callLedgers (starter : Starter) (r : LedgersRequest) :
    NodeRef → Play (Except NodeFailure LedgersPage)
  | .remote endpoint => return unreachable endpoint
  | .scripted node =>
    call starter node (fun endpoint => .ledgers endpoint r)
      (fun n => (n.onLedgers.head?, { n with onLedgers := n.onLedgers.tail }))
      fun n => (n.ledgersPage r, n)

def handle (starter : Starter) (event : ContractEvent) : Play Verdict := do
  match (← get).handler with
  | none => return .accepted
  | some handler =>
    let handler := { handler with calls := handler.calls + 1 }
    modify fun s => { s with handler := some handler }
    log (.deliver event)
    match handler.rules.find? fun r =>
        r.call = some handler.calls || r.eventId = some event.id with
    | none => return .accepted
    | some rule =>
      -- a panic at once comes before the actions and the delay
      match rule.atOnce, rule.panic with
      | true, some payload => return .panicked payload
      | _, _ =>
        rule.actions.forM (perform starter)
        pass starter false rule.delay
        match rule.panic, rule.failure with
        | some payload, _ => return .panicked payload
        | none, some cause => return .failed cause
        | none, none => return .accepted

def nodeOf (role : NodeRole) : Play NodeRef := do
  let s ← get
  match role with
  | .live => return s.live
  | .archive => return s.archive.getD (.remote "")

def answer (starter : Starter) : (q : Question) → Play q.Reply
  | .health role => do callHealth starter (← nodeOf role)
  | .events request => do callEvents starter request (← nodeOf .live)
  | .ledgers request => do callLedgers starter request (← nodeOf .archive)
  | .handle event => handle starter event
  | .pause milliseconds => pass starter true milliseconds.toNat

def refused : Starter := fun request => do
  match ((← engine).start request).2 with
  | .error e => return .error e
  | .ok _ => return .error .alreadyRunning

def run : Nat → Run → Play (Except IngestError Summary)
  | 0, _ => return .error (.unexpected "the rehearsal takes too long")
  | steps + 1, r => do
    let reply ← answer refused (r.pending.question r.assignment)
    let (engine, flight) := (← engine).reply r reply
    setEngine engine
    match flight with
    | .underWay r => run steps r
    | .over finished =>
      modify fun s => { s with metrics := s.metrics.recordAll finished.measured.reverse }
      return finished.result

def stepLimit : Nat := 1000000000

def start (handler : Option Handler) : Starter := fun request => do
  let (engine, result) := (← engine).start request
  setEngine engine
  match result with
  | .error e => return .error e
  | .ok (.over finished) =>
    modify fun s => { s with metrics := s.metrics.recordAll finished.measured.reverse }
    return finished.result
  | .ok (.underWay r) =>
    -- a run that an action begins leaves the handler of the outer one as it was
    let outer := (← get).handler
    modify fun s => { s with handler }
    let result ← run stepLimit r
    modify fun s => { s with handler := outer }
    return result

end Play
end LedgerFeed.Rehearsal
