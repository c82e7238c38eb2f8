import LedgerFeed.Config.Validation
import LedgerFeed.Config.Wire

/-! Configuration files: TOML, read and checked as a whole. How TOML and URLs are read are
parameters: a reader of TOML gives the value that a text spells, unless it is no TOML. -/

namespace LedgerFeed

inductive LoadError where
  | notFound
  | notText
  | parse
  | invalid (faults : List ConfigFault)
  deriving DecidableEq

def LoadError.message : LoadError → String
  | notFound => "IO error: not found"
  | notText => "IO error: stream did not contain valid UTF-8"
  | parse => "Parse error"
  | invalid faults => s!"Validation failed: {ConfigFault.texts faults}"

/-- In TOML an empty table or array is void, and arrays may go on. -/
def Toml.dialect : Json.Dialect where
  isVoid
    | .object [] => true
    | .array [] => true
    | _ => false
  allowsExtra := true

namespace FeedConfig

section

variable (toml : String → Option Json.Value) (urls : Net.UrlReader)

def parse (text : String) : Except LoadError FeedConfig :=
  match (toml text).bind (ofValue? Toml.dialect) with
  | none => .error .parse
  | some config =>
    if config.faults urls = [] then .ok config else .error (.invalid (config.faults urls))

def load : Option ByteArray → Except LoadError FeedConfig
  | none => .error .notFound
  | some bytes =>
    match String.fromUTF8? bytes with
    | none => .error .notText
    | some text => parse toml urls text

def reloadedFilters? (content : Option ByteArray) : Option (List EventFilter) :=
  (load toml urls content).toOption.map fun c => c.engine.filters

end

end FeedConfig
end LedgerFeed
