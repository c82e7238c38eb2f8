import LedgerFeed.CommandLine
import LedgerFeed.Config.File
import LedgerFeed.Engine.Basic
import LedgerFeed.Event.Wire

/-! One run of the program: the engine that a command line and a configuration file make, and the
lines that are printed. -/

namespace LedgerFeed

inductive SessionError where
  | load (error : LoadError)
  | ingest (error : IngestError)
  deriving DecidableEq

def SessionError.message : SessionError → String
  | load error => error.message
  | ingest error => error.message

namespace CommandLine

section

variable (toml : String → Option Json.Value) (urls : Net.UrlReader)

def fileConfig (c : CommandLine) (content : Option ByteArray) : Except LoadError FeedConfig :=
  match c.config with
  | none => .ok .default
  | some _ => FeedConfig.load toml urls content

def loadConfig (c : CommandLine) (content : Option ByteArray) : Except SessionError FeedConfig :=
  match c.fileConfig toml urls content with
  | .error error => .error (.load error)
  | .ok config => .ok { config with engine := c.apply config.engine }

def engine (config : FeedConfig) : Except SessionError Engine :=
  match Engine.ofConfig urls config.engine none .standard with
  | .error error => .error (.ingest error)
  | .ok engine => .ok engine

end

end CommandLine

def NodeRole.name : NodeRole → String
  | live => "live"
  | archive => "archive"

def Health.line (h : Health) (role : NodeRole) (endpoint : String) : String :=
  (Json.Value.object
    [ ("endpoint", .string endpoint),
      ("healthy", .bool h.healthy),
      ("latestLedger", Json.Value.ofUInt32 h.latest),
      ("oldestLedger", Json.Value.ofUInt32 h.oldest),
      ("retentionWindow", Json.Value.ofUInt32 h.window),
      ("source", .string role.name) ]).print

def Outcome.name : Outcome → String
  | completed => "completed"
  | stopped => "stopped"

def Summary.line (s : Summary) : String :=
  s!"{s.outcome.name} after {s.delivered} events; resume from ledger {s.resume}"

end LedgerFeed
