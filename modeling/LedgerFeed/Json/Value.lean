import LedgerFeed.Json.Token

/-! JSON values, their compact text, and the reader. The reader keeps the open arrays and objects
on a stack of its own, so text may nest to any depth. -/

namespace LedgerFeed.Json

inductive Value where
  | null
  | bool (b : Bool)
  | integer (n : Int)
  | real (literal : String)
  | string (s : String)
  | array (items : List Value)
  | object (fields : List (String × Value))
  /-- A string, or an object with a key, whose text is not Unicode. It is well formed, and may
  stand wherever a value is passed over, but it denotes nothing. -/
  | undenoted
  deriving Inhabited

mutual

def Value.tokens : Value → List Token
  | .null => [.null]
  | .bool b => [.bool b]
  | .integer n => [.integer n]
  | .real literal => [.real literal]
  | .string s => [.string (some s)]
  | .array items => .openArray :: itemTokens items ++ [.closeArray]
  | .object fields => .openObject :: fieldTokens fields ++ [.closeObject]
  | .undenoted => [.string none]

def itemTokens : List Value → List Token
  | [] => []
  | [v] => v.tokens
  | v :: w :: rest => v.tokens ++ .comma :: itemTokens (w :: rest)

def fieldTokens : List (String × Value) → List Token
  | [] => []
  | [(k, v)] => .string (some k) :: .colon :: v.tokens
  | (k, v) :: f :: rest =>
    .string (some k) :: .colon :: v.tokens ++ .comma :: fieldTokens (f :: rest)

end

def Value.print (v : Value) : String :=
  String.ofList (v.tokens.flatMap Token.chars)

inductive Frame where
  | array (items : List Value)
  | object (fields : List (Option String × Value)) (key : Option String)

inductive Reader where
  | value (stack : List Frame)
  | firstItem (stack : List Frame)
  | key (fields : List (Option String × Value)) (stack : List Frame)
  | colon (fields : List (Option String × Value)) (key : Option String) (stack : List Frame)
  | after (v : Value) (stack : List Frame)

def objectOf (fields : List (Option String × Value)) : Value :=
  match fields.reverse.mapM fun (k, v) => k.map (·, v) with
  | some fields => .object fields
  | none => .undenoted

def Reader.start (stack : List Frame) : Token → Option Reader
  | .openArray => some (.firstItem stack)
  | .openObject => some (.key [] stack)
  | .null => some (.after .null stack)
  | .bool b => some (.after (.bool b) stack)
  | .integer n => some (.after (.integer n) stack)
  | .real literal => some (.after (.real literal) stack)
  | .string (some s) => some (.after (.string s) stack)
  | .string none => some (.after .undenoted stack)
  | _ => none

def Reader.step : Reader → Token → Option Reader
  | .value stack, t => start stack t
  | .firstItem stack, .closeArray => some (.after (.array []) stack)
  | .firstItem stack, t => start (.array [] :: stack) t
  | .key [] stack, .closeObject => some (.after (.object []) stack)
  | .key fields stack, .string k => some (.colon fields k stack)
  | .colon fields k stack, .colon => some (.value (.object fields k :: stack))
  | .after v (.array items :: stack), .comma => some (.value (.array (v :: items) :: stack))
  | .after v (.array items :: stack), .closeArray =>
    some (.after (.array (v :: items).reverse) stack)
  | .after v (.object fields k :: stack), .comma => some (.key ((k, v) :: fields) stack)
  | .after v (.object fields k :: stack), .closeObject =>
    some (.after (objectOf ((k, v) :: fields)) stack)
  | _, _ => none

def ofTokens? (ts : List Token) : Option Value :=
  match ts.foldlM Reader.step (.value []) with
  | some (.after v []) => some v
  | _ => none

def read? (text : String) : Option Value := do
  ofTokens? (← tokens? text.toList)

end LedgerFeed.Json
