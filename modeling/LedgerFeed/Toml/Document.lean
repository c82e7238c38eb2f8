import LedgerFeed.Toml.Number
import LedgerFeed.Toml.Table

/-! TOML documents. Dates and numbers with a fraction are told from integers, but no more is made
of them. -/

namespace LedgerFeed.Toml

open Json (Value)

def depthLimit : Nat := 80

def items? (value : List Char → Option (Value × List Char)) :
    Nat → List Char → Option (List Value × List Char)
  | 0, _ => none
  | fuel + 1, cs =>
    match skipLines false cs with
    | ']' :: rest => some ([], rest)
    | cs =>
      match value cs with
      | none => none
      | some (v, rest) =>
        match skipLines false rest with
        | ',' :: rest => (items? value fuel rest).map fun (vs, r) => (v :: vs, r)
        | ']' :: rest => some ([v], rest)
        | _ => none

def pair? (value : List Char → Option (Value × List Char)) (cs : List Char) :
    Option ((List String × Value) × List Char) :=
  match keys? (depthLimit - 1) cs with
  | some (keys, '=' :: rest) => (value (skipBlanks rest)).map fun (v, r) => ((keys, v), r)
  | _ => none

def pairs? (value : List Char → Option (Value × List Char)) :
    Nat → List Char → Option (List (List String × Value) × List Char)
  | 0, _ => none
  | fuel + 1, cs =>
    match pair? value cs with
    | none => none
    | some (p, rest) =>
      match skipBlanks rest with
      | ',' :: rest => (pairs? value fuel rest).map fun (ps, r) => (p :: ps, r)
      | '\x7d' :: rest => some ([p], rest)
      | _ => none

def value? : (depth : Nat) → List Char → Option (Value × List Char)
  | 0, _ => none
  | depth + 1, cs =>
    match cs with
    | '"' :: _ => (string? cs).map fun (s, r) => (.string s, r)
    | '\'' :: _ => (string? cs).map fun (s, r) => (.string s, r)
    | '[' :: rest =>
      if depth = 0 then none
      else (items? (value? depth) (rest.length + 1) rest).map fun (vs, r) => (.array vs, r)
    | '\x7b' :: rest =>
      if depth = 0 then none
      else
        match skipBlanks rest with
        | '\x7d' :: rest => some (.object [], rest)
        | rest =>
          match pairs? (value? depth) (rest.length + 1) rest with
          | none => none
          | some (pairs, rest) => (Item.empty.insertAll pairs).map fun t => (t.toValue, rest)
    | 't' :: 'r' :: 'u' :: 'e' :: rest => some (.bool true, rest)
    | 'f' :: 'a' :: 'l' :: 's' :: 'e' :: rest => some (.bool false, rest)
    | _ =>
      match dateOrTime cs with
      | .wrong => none
      | .value v rest => some (v, rest)
      | .other =>
        match number cs with
        | .value v rest => some (v, rest)
        | _ => none

inductive Header where
  | root
  | table (keys : List String)
  | element (keys : List String)

structure Section where
  header : Header
  pairs : List (List String × Value)

def header? : List Char → Option (Header × List Char)
  | '[' :: '[' :: rest =>
    match keys? (depthLimit - 1) rest with
    | some (keys, ']' :: ']' :: rest) => (lineEnd? rest).map (.element keys, ·)
    | _ => none
  | '[' :: rest =>
    match keys? (depthLimit - 1) rest with
    | some (keys, ']' :: rest) => (lineEnd? rest).map (.table keys, ·)
    | _ => none
  | _ => none

def sections? : Nat → Section → List Char → Option (List Section)
  | 0, _, _ => none
  | fuel + 1, current, cs =>
    let closed : Section := { current with pairs := current.pairs.reverse }
    match skipBlanks cs with
    | [] => some [closed]
    | '#' :: rest => (lineEnd? ('#' :: rest)).bind (sections? fuel current)
    | '[' :: rest =>
      match header? ('[' :: rest) with
      | none => none
      | some (header, rest) => (sections? fuel ⟨header, []⟩ rest).map (closed :: ·)
    | cs =>
      match lineBreak? cs with
      | some rest => sections? fuel current rest
      | none =>
        match pair? (value? depthLimit) cs with
        | none => none
        | some (p, rest) =>
          (lineEnd? rest).bind (sections? fuel { current with pairs := p :: current.pairs })

def Section.addTo (s : Section) (root : Item) : Option Item :=
  match s.header with
  | .root => root.insertAll s.pairs
  | .table keys => root.openTable keys s.pairs
  | .element keys => root.openElement keys s.pairs

def read? (text : String) : Option Value := do
  let cs := match text.toList with
    | '\uFEFF' :: rest => rest
    | cs => cs
  let sections ← sections? (cs.length + 1) ⟨.root, []⟩ cs
  let root ← sections.foldlM (fun root s => s.addTo root) Item.empty
  return root.toValue

end LedgerFeed.Toml
