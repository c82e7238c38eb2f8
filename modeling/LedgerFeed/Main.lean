import LedgerFeed.Net.Http
import LedgerFeed.Node.Rpc
import LedgerFeed.Session
import LedgerFeed.Text.Uuid
import LedgerFeed.Toml.Document
import Std.Async.DNS
import Std.Async.Signal
import Std.Async.TCP
import Std.Async.Timer

/-! The program. It talks to the nodes, prints events as they are delivered, and lets signals and
changes of the configuration file reach the engine. -/

namespace LedgerFeed.Program

open Std.Async

structure World where
  commandLine : CommandLine
  engine : IO.Ref Engine
  content : IO.Ref (Option ByteArray)
  signals : IO.Ref Nat
  stopping : IO.Promise Unit
  leaving : IO.Promise Unit

abbrev Action := ReaderT World (ExceptT UInt32 IO)

def exitForced : UInt32 := 130

def World.signal (w : World) : IO Unit := do
  if (← w.signals.modifyGet fun n => (n, n + 1)) = 0 then
    let stopped ← w.engine.modifyGet fun e => (e.stop.control.stop, e.stop)
    if stopped then w.stopping.resolve ()
  else w.leaving.resolve ()

partial def World.listen (w : World) (waiter : Signal.Waiter) : IO Unit := do
  let next ← waiter.wait
  let again := fun _ => do
    w.signal
    w.listen waiter
  discard <| AsyncTask.mapIO again next

def first {α : Type} (a b : Task α) : Action α := do
  let left : Task (Option α) := (← read).leaving.result?.map fun _ => none
  match ← (IO.waitAny [a.map some, b.map some, left] : BaseIO (Option α)) with
  | some result => return result
  | none => throw exitForced

def timer (milliseconds : Nat) : IO (Task Unit) := do
  let sleeping ← Async.toIO (sleep (.ofNat milliseconds))
  return Task.map (fun _ => ()) sleeping

partial def receive (client : TCP.Socket.Client) (before : List UInt8) :
    Async Net.Http.Received := do
  match ← client.recv? 65536 with
  | none => return Net.Http.received true before
  | some more =>
    let bytes := before ++ more.toList
    match Net.Http.received false bytes with
    | .incomplete => receive client bytes
    | received => return received

def post (target : Net.Target) (text : String) : Async Net.Http.Received := do
  match (← DNS.getAddrInfo target.host (toString target.port))[0]? with
  | none => throw (.userError "no address")
  | some address =>
    let client ← TCP.Socket.Client.mk
    client.connect <|
      match address with
      | .v4 addr => .v4 ⟨addr, target.port⟩
      | .v6 addr => .v6 ⟨addr, target.port⟩
    client.send (Net.Http.post target text)
    receive client []

def exchange (client : RpcClient) (text : String) : Action Exchange := do
  let unreachable := .unreachable s!"error sending request for url ({client.endpoint})"
  match Net.Target.ofUrl? client.endpoint with
  | none => return unreachable
  | some target =>
    let posting ← Async.toIO (post target text)
    let late ← timer (client.timeoutSeconds.toNat * 1000)
    let posted : Except IO.Error Net.Http.Received → Exchange
      | .ok (.answer status body) => .answered status body
      | _ => unreachable
    first (late.map fun _ => .timedOut) (Task.map posted posting)

def call (client : RpcClient) (c : RpcCall) : Action (Except NodeFailure c.Result) := do
  let id := Uuid.ofRandom (← IO.getRandomBytes 16).toList
  return client.conclude c (← exchange client (c.body id).print)

def clientOf (role : NodeRole) : Action RpcClient := do
  let e ← (← read).engine.get
  let endpoint := match role with
    | .live => e.live
    | .archive => e.archive.getD ""
  return ⟨endpoint, e.config.timeoutSeconds⟩

def deliver (event : ContractEvent) : Action Verdict := do
  match ← EIO.toBaseIO (IO.print event.printed) with
  | .ok _ => return .accepted
  | .error e => return .panicked (some s!"failed printing to stdout: {e}")

def pause (milliseconds : Nat) : Action Unit := do
  let stopping : Task Unit := (← read).stopping.result?.map fun _ => ()
  first (← timer milliseconds) stopping

def answer : (q : Question) → Action q.Reply
  | .health role => do call (← clientOf role) .health
  | .events request => do call (← clientOf .live) (.events request)
  | .ledgers request => do call (← clientOf .archive) (.ledgers request)
  | .handle event => deliver event
  | .pause milliseconds => pause milliseconds.toNat

def contentOf (c : CommandLine) : IO (Option ByteArray) := do
  match c.config with
  | none => return none
  | some path =>
    match ← EIO.toBaseIO (IO.FS.readBinFile path) with
    | .ok content => return some content
    | .error _ => return none

def watch : Action Unit := do
  let w ← read
  if w.commandLine.watchConfig then
    let content ← contentOf w.commandLine
    let before ← w.content.swap content
    if before.map ByteArray.toList ≠ content.map ByteArray.toList then
      match FeedConfig.reloadedFilters? Toml.read? Net.Url.reader content with
      | none => pure ()
      | some filters => w.engine.modify fun e => e.reload filters

partial def carry (run : Run) : Action Finished := do
  let reply ← answer (run.pending.question run.assignment)
  watch
  let flight ← (← read).engine.modifyGet fun e =>
    let (e, flight) := e.reply run reply
    (flight, e)
  match flight with
  | .over finished => return finished
  | .underWay run => carry run

def fail {α : Type} (error : SessionError) : Action α := do
  IO.eprintln s!"Error: {error.message}"
  throw 1

def runRange (request : RunRequest) : Action Unit := do
  let started ← (← read).engine.modifyGet fun e =>
    let (e, started) := e.start request
    (started, e)
  match started with
  | .error error => fail (.ingest error)
  | .ok flight =>
    let finished ← match flight with
      | .over finished => pure finished
      | .underWay run => carry run
    match finished.result with
    | .error error => fail (.ingest error)
    | .ok summary => IO.eprintln summary.line

def printHealth (role : NodeRole) : Action Unit := do
  let client ← clientOf role
  match ← call client .health with
  | .error failure => fail (.ingest (.node client.endpoint failure))
  | .ok (health : Health) => IO.println (health.line role client.endpoint)

def command : Command → Action Unit
  | .run request => runRange request
  | .health => do
    printHealth .live
    if (← (← read).engine.get).archive.isSome then printHealth .archive

def session (c : CommandLine) : IO UInt32 := do
  let content ← contentOf c
  match
      (c.loadConfig Toml.read? Net.Url.reader content).bind (CommandLine.engine Net.Url.reader)
    with
  | .error error =>
    IO.eprintln s!"Error: {error.message}"
    return 1
  | .ok engine =>
    let w : World :=
      { commandLine := c
        engine := ← IO.mkRef engine
        content := ← IO.mkRef content
        signals := ← IO.mkRef 0
        stopping := ← IO.Promise.new
        leaving := ← IO.Promise.new }
    w.listen (← Signal.Waiter.mk .sigint true)
    w.listen (← Signal.Waiter.mk .sigterm true)
    match ← (command c.command).run w with
    | .ok _ => return 0
    | .error code => return code

end LedgerFeed.Program

open LedgerFeed in
def main (args : List String) : IO UInt32 := do
  match CommandLine.parse args with
  | .error .help =>
    IO.println CommandLine.usage
    return 0
  | .error .wrong =>
    IO.eprintln CommandLine.usage
    return 2
  | .ok c => Program.session c
