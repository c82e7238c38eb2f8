import LedgerFeed.Text.Decimal
import LedgerFeed.Run.Basic

/-! The command line: options for all commands, then a command with options of its own. -/

namespace LedgerFeed

inductive Command where
  | run (request : RunRequest)
  | health
  deriving DecidableEq

structure CommandLine where
  config : Option String
  liveUrl : Option String
  archiveUrl : Option String
  watchConfig : Bool
  command : Command
  deriving DecidableEq

inductive Usage where
  | help
  | wrong
  deriving DecidableEq

namespace CommandLine

structure Options where
  config : Option String
  liveUrl : Option String
  archiveUrl : Option String
  watchConfig : Bool

structure Range where
  start : Option LedgerNumber
  stop : Option LedgerNumber

def isOption (arg : String) : Bool :=
  match arg.toList with
  | '-' :: _ :: _ => true
  | _ => false

def attached (name arg : String) : Option String :=
  let mark := name.toList ++ ['=']
  if mark.isPrefixOf arg.toList then some (String.ofList (arg.toList.drop mark.length)) else none

def attachedShort (letter : Char) (arg : String) : Option String :=
  match arg.toList with
  | '-' :: c :: rest =>
    if c = letter ∧ rest ≠ [] then
      match rest with
      | '=' :: value => some (String.ofList value)
      | value => some (String.ofList value)
    else none
  | _ => none

def names (long : String) (short : Option Char) (arg : String) : Bool :=
  arg = long || short.any fun c => arg.toList = ['-', c]

/-- The value of an option at the head of the arguments, and the arguments after it. `none` if
another argument stands there, `wrong` if the value is missing. -/
def value? (long : String) (short : Option Char) :
    List String → Option (Except Usage (String × List String))
  | [] => none
  | arg :: rest =>
    match (attached long arg).or (short.bind (attachedShort · arg)) with
    | some value => some (.ok (value, rest))
    | none =>
      if names long short arg then
        match rest with
        | value :: rest => if isOption value then some (.error .wrong) else some (.ok (value, rest))
        | [] => some (.error .wrong)
      else none

def isHelp (arg : String) : Bool :=
  arg = "--help" || ['-', 'h'].isPrefixOf arg.toList

def ledger? (text : String) : Option LedgerNumber :=
  let number := fun digits =>
    (Decimal.value? digits).bind fun n => if n < UInt32.size then some (UInt32.ofNat n) else none
  match text.toList with
  | '+' :: digits => number digits
  | '-' :: digits => (number digits).filter (· = 0)
  | digits => number digits

def once {α : Type} (before : Option α) (value : α) : Except Usage (Option α) :=
  if before.isSome then .error .wrong else .ok (some value)

def readRange : Nat → Range → List String → Except Usage Range
  | _, r, [] => .ok r
  | _, r, ["--"] => .ok r
  | 0, _, _ => .error .wrong
  | fuel + 1, r, arg :: rest => do
    if isHelp arg then .error .help
    match value? "--start" none (arg :: rest), value? "--stop" none (arg :: rest) with
    | some found, _ =>
      let (text, rest) ← found
      match ledger? text with
      | none => .error .wrong
      | some n => readRange fuel { r with start := ← once r.start n } rest
    | none, some found =>
      let (text, rest) ← found
      match ledger? text with
      | none => .error .wrong
      | some n => readRange fuel { r with stop := ← once r.stop n } rest
    | none, none => .error .wrong

def readCommand (name : String) (args : List String) : Except Usage Command :=
  match name with
  | "live" => do
    let r ← readRange args.length ⟨none, none⟩ args
    return .run (.live r.start r.stop)
  | "run" => do
    let r ← readRange args.length ⟨none, none⟩ args
    return .run (.combined r.start r.stop)
  | "archive" => do
    match ← readRange args.length ⟨none, none⟩ args with
    | ⟨some start, some stop⟩ => return .run (.archive start stop)
    | _ => .error .wrong
  | "health" =>
    match args with
    | [] => .ok .health
    | ["--"] => .ok .health
    | arg :: _ => .error (if isHelp arg then .help else .wrong)
  | "help" =>
    match args with
    | [] => .error .help
    | topic :: rest =>
      if rest = [] ∧ ["live", "archive", "run", "health", "help"].contains topic then .error .help
      else .error .wrong
  | _ => .error .wrong

def readOptions : Nat → Options → List String → Except Usage CommandLine
  | _, _, [] => .error .wrong
  | 0, _, _ => .error .wrong
  | fuel + 1, o, arg :: rest => do
    if isHelp arg then .error .help
    if arg = "--watch-config" then
      if o.watchConfig then .error .wrong
      readOptions fuel { o with watchConfig := true } rest
    else
      match value? "--config" (some 'c') (arg :: rest), value? "--live-url" none (arg :: rest),
        value? "--archive-url" none (arg :: rest) with
      | some found, _, _ =>
        let (path, rest) ← found
        if path = "" then .error .wrong
        readOptions fuel { o with config := ← once o.config path } rest
      | none, some found, _ =>
        let (url, rest) ← found
        readOptions fuel { o with liveUrl := ← once o.liveUrl url } rest
      | none, none, some found =>
        let (url, rest) ← found
        readOptions fuel { o with archiveUrl := ← once o.archiveUrl url } rest
      | none, none, none =>
        let command ← readCommand arg rest
        if o.watchConfig && o.config.isNone then .error .wrong
        return ⟨o.config, o.liveUrl, o.archiveUrl, o.watchConfig, command⟩

def parse (args : List String) : Except Usage CommandLine :=
  readOptions args.length ⟨none, none, none, false⟩ args

def usage : String :=
  "\n".intercalate
    [ "Usage: ledger-feed [OPTIONS] <COMMAND>",
      "",
      "Commands:",
      "  live     Follow the live node only",
      "  archive  Replay an inclusive ledger range from the archive node",
      "  run      Backfill from the archive as needed, then follow live",
      "  health   Print the health and retention window of the configured nodes",
      "",
      "Options:",
      "  -c, --config <CONFIG>            TOML configuration file",
      "      --live-url <LIVE_URL>        Live node endpoint; overrides the config file",
      "      --archive-url <ARCHIVE_URL>  Archive node endpoint; overrides the config file",
      "      --watch-config               Reload event filters when the config file changes",
      "  -h, --help                       Print help",
      "",
      "The ranges of live, archive and run are given by --start <START> and --stop <STOP>." ]

def apply (c : CommandLine) (config : EngineConfig) : EngineConfig :=
  { config with
    liveUrl := c.liveUrl.getD config.liveUrl
    archiveUrl := c.archiveUrl.or config.archiveUrl }

end CommandLine
end LedgerFeed
