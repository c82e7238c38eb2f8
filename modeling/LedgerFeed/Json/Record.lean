import LedgerFeed.Json.Value

/-! Reading typed values: primitive shapes, and records given as an object or as the array of
their fields. -/

namespace LedgerFeed.Json

structure Dialect where
  isVoid : Value → Bool
  allowsExtra : Bool

def Dialect.json : Dialect where
  isVoid
    | .null => true
    | _ => false
  allowsExtra := false

namespace Value

def text? : Value → Option String
  | .string s => some s
  | _ => none

def bool? : Value → Option Bool
  | .bool b => some b
  | _ => none

def uint16? : Value → Option UInt16
  | .integer n => if 0 ≤ n ∧ n.toNat < UInt16.size then some (UInt16.ofNat n.toNat) else none
  | _ => none

def uint32? : Value → Option UInt32
  | .integer n => if 0 ≤ n ∧ n.toNat < UInt32.size then some (UInt32.ofNat n.toNat) else none
  | _ => none

def uint64? : Value → Option UInt64
  | .integer n => if 0 ≤ n ∧ n.toNat < UInt64.size then some (UInt64.ofNat n.toNat) else none
  | _ => none

def int64? : Value → Option Int64
  | .integer n =>
    if Int64.minValue.toInt ≤ n ∧ n ≤ Int64.maxValue.toInt then some (Int64.ofInt n) else none
  | _ => none

def list? {α : Type} (item : Value → Option α) : Value → Option (List α)
  | .array items => items.mapM item
  | _ => none

def nullable? {α : Type} (item : Value → Option α) : Value → Option (Option α)
  | .null => some none
  | v => (item v).map some

def get? (key : String) : Value → Option Value
  | .object fields => fields.lookup key
  | _ => none

def ofNat (n : Nat) : Value :=
  .integer n

def ofUInt32 (n : UInt32) : Value :=
  .integer n.toNat

def ofUInt64 (n : UInt64) : Value :=
  .integer n.toNat

def ofOption {α : Type} (value : α → Value) : Option α → Value
  | none => .null
  | some a => value a

def ofTexts (texts : List String) : Value :=
  .array (texts.map .string)

/-- The fields of a record, in the order of `names`, where each name is a list of accepted
spellings. An object may hold other keys, but none of these twice under any spelling. An array
gives the fields by position and may end early. -/
def recordIn? (dialect : Dialect) (names : List (List String)) :
    Value → Option (List (Option Value))
  | .object fields =>
    names.mapM fun spellings =>
      match fields.filter fun f => spellings.contains f.1 with
      | [] => some none
      | [f] => some (some f.2)
      | _ => none
  | .array items =>
    if dialect.allowsExtra || items.length ≤ names.length then
      some ((items.take names.length).map some ++
        List.replicate (names.length - items.length) none)
    else none
  | _ => none

def record? (names : List (List String)) (v : Value) : Option (List (Option Value)) :=
  v.recordIn? .json names

def required {α : Type} (item : Value → Option α) (field : Option Value) : Option α :=
  field.bind item

def optional {α : Type} (fallback : α) (item : Value → Option α) : Option Value → Option α
  | none => some fallback
  | some v => item v

end Value
end LedgerFeed.Json
