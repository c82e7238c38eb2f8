import LedgerFeed.Json.Value
import LedgerFeed.Toml.Text

/-! Numbers, dates and times of TOML. -/

namespace LedgerFeed.Toml

open Json (Value)

/-- What a reader made of the head of a text: a value, nothing that it knows, or something that it
knows but that is wrong. -/
inductive Found (α : Type) where
  | value (a : α) (rest : List Char)
  | other
  | wrong

def digits? (isDigit : Char → Bool) : List Char → Option (List Char × List Char)
  | [] => none
  | c :: rest => if isDigit c then more [c] rest else none
where
  more (read : List Char) : List Char → Option (List Char × List Char)
    | '_' :: c :: rest => if isDigit c then more (c :: read) rest else none
    | ['_'] => none
    | c :: rest => if isDigit c then more (c :: read) rest else some (read.reverse, c :: rest)
    | [] => some (read.reverse, [])

def sign : List Char → Bool × List Char
  | '+' :: rest => (false, rest)
  | '-' :: rest => (true, rest)
  | cs => (false, cs)

def wholeDigits? : List Char → Option (List Char × List Char)
  | '0' :: rest => some (['0'], rest)
  | cs => digits? Char.isDigit cs

def integer? (negative : Bool) (n : Nat) : Option Value :=
  let value : Int := if negative then -n else n
  if Int64.minValue.toInt ≤ value ∧ value ≤ Int64.maxValue.toInt then some (.integer value)
  else none

def basedInteger (base : Nat) (rest : List Char) : Found Value :=
  let isDigit := fun c => (Hex.value? c).any (· < base)
  match digits? isDigit rest with
  | none => .wrong
  | some (ds, rest) =>
    match (Hex.number? base ds).bind (integer? false) with
    | none => .wrong
    | some v => .value v rest

/-- Whether `n · 10^exponent` rounds to infinity as a number of double precision. -/
def overflows (n : Nat) (exponent : Int) : Bool :=
  let magnitude := (Decimal.text n).length + exponent
  if n = 0 ∨ magnitude < 309 then false
  else if 310 < magnitude then true
  else
    let bound := Nat.pow 2 1024 - Nat.pow 2 970
    let scale := Nat.pow 10 exponent.natAbs
    if 0 ≤ exponent then bound ≤ n * scale else bound * scale ≤ n

def afterWhole (negative : Bool) (whole rest : List Char) : Found Value :=
  let real := fun (fraction exponent : List Char) (negativeExponent : Bool) (rest : List Char) =>
    let n := Nat.ofDigitChars 10 (whole ++ fraction) 0
    let e : Int := Nat.ofDigitChars 10 exponent 0
    let e := (if negativeExponent then -e else e) - fraction.length
    if !negative && overflows n e then .wrong
    else .value (.real (String.ofList (whole ++ '.' :: fraction))) rest
  let exponent := fun (fraction cs : List Char) =>
    let (negativeExponent, cs) := sign cs
    match digits? Char.isDigit cs with
    | none => .wrong
    | some (ds, rest) => real fraction ds negativeExponent rest
  match rest with
  | '.' :: rest =>
    match digits? Char.isDigit rest with
    | none => .wrong
    | some (fraction, rest) =>
      match rest with
      | 'e' :: cs => exponent fraction cs
      | 'E' :: cs => exponent fraction cs
      | _ => real fraction [] false rest
  | 'e' :: cs => exponent [] cs
  | 'E' :: cs => exponent [] cs
  | _ =>
    match integer? negative (Nat.ofDigitChars 10 whole 0) with
    | none => .wrong
    | some v => .value v rest

def number (cs : List Char) : Found Value :=
  match cs with
  | '0' :: 'x' :: rest => basedInteger 16 rest
  | '0' :: 'o' :: rest => basedInteger 8 rest
  | '0' :: 'b' :: rest => basedInteger 2 rest
  | _ =>
    let (negative, rest) := sign cs
    match rest with
    | 'i' :: 'n' :: 'f' :: rest => .value (.real "inf") rest
    | 'n' :: 'a' :: 'n' :: rest => .value (.real "nan") rest
    | _ =>
      match wholeDigits? rest with
      | none => .wrong
      | some (whole, rest) => afterWhole negative whole rest

def fixedNumber? (width : Nat) (cs : List Char) : Option (Nat × List Char) :=
  if (cs.take width).length = width then
    (Decimal.value? (cs.take width)).map (·, cs.drop width)
  else none

def daysInMonth (year month : Nat) : Nat :=
  if month = 2 then
    if (year % 4 = 0 ∧ year % 100 ≠ 0) ∨ year % 400 = 0 then 29 else 28
  else if [4, 6, 9, 11].contains month then 30
  else 31

def twoDigits? (low high : Nat) (cs : List Char) : Option (Nat × List Char) :=
  (fixedNumber? 2 cs).filter fun (n, _) => low ≤ n ∧ n ≤ high

def date (cs : List Char) : Found Unit :=
  match fixedNumber? 4 cs with
  | some (year, '-' :: rest) =>
    match twoDigits? 1 12 rest with
    | some (month, '-' :: rest) =>
      match twoDigits? 1 (daysInMonth year month) rest with
      | some (_, rest) => .value () rest
      | none => .wrong
    | _ => .wrong
  | _ => .other

def time (cs : List Char) : Found Unit :=
  match twoDigits? 0 23 cs with
  | some (_, ':' :: rest) =>
    match twoDigits? 0 59 rest with
    | some (_, ':' :: rest) =>
      match twoDigits? 0 60 rest with
      | none => .wrong
      | some (_, '.' :: c :: rest) =>
        if c.isDigit then .value () (rest.dropWhile Char.isDigit) else .value () ('.' :: c :: rest)
      | some (_, rest) => .value () rest
    | _ => .wrong
  | _ => .other

def offset (cs : List Char) : Found Unit :=
  match cs with
  | 'Z' :: rest => .value () rest
  | 'z' :: rest => .value () rest
  | c :: rest =>
    if c = '+' ∨ c = '-' then
      match twoDigits? 0 23 rest with
      | some (_, ':' :: rest) =>
        match twoDigits? 0 59 rest with
        | some (_, rest) => .value () rest
        | none => .wrong
      | _ => .wrong
    else .value () cs
  | [] => .value () cs

/-- A moment, day or time of day. No configuration knows the field that it is read as. -/
def moment : Value :=
  .object [("$moment", .string "")]

def dateOrTime (cs : List Char) : Found Value :=
  match date cs with
  | .wrong => .wrong
  | .other =>
    match time cs with
    | .value _ rest => .value moment rest
    | .other => .other
    | .wrong => .wrong
  | .value _ rest =>
    match rest with
    | c :: after =>
      if c = 'T' ∨ c = 't' ∨ c = ' ' then
        match time after with
        | .wrong => .wrong
        | .other => .value moment rest
        | .value _ after =>
          match offset after with
          | .value _ after => .value moment after
          | _ => .wrong
      else .value moment rest
    | [] => .value moment []

end LedgerFeed.Toml
