import LedgerFeed.Json.Value

/-! Tables as TOML builds them up. A table may be opened by a header once, and keys with dots make
tables of their own, which no header may open. -/

namespace LedgerFeed.Toml

open Json (Value)

inductive Item where
  | value (v : Value)
  /-- A table. It is implicit until a header or a value opens it, and dotted if keys with dots made
  it. -/
  | table (implicit dotted : Bool) (entries : List (String × Item))
  | tables (elements : List Item)

namespace Item

mutual

def toValue : Item → Value
  | .value v => v
  | .table _ _ entries => .object (entryValues entries)
  | .tables elements => .array (elementValues elements).reverse

def entryValues : List (String × Item) → List (String × Value)
  | [] => []
  | (k, item) :: rest => (k, item.toValue) :: entryValues rest

def elementValues : List Item → List Value
  | [] => []
  | item :: rest => item.toValue :: elementValues rest

end

def empty : Item := .table false false []

def alter (key : String) (f : Option Item → Option (Option Item)) :
    List (String × Item) → Option (List (String × Item))
  | [] => (f none).map fun
    | none => []
    | some item => [(key, item)]
  | (k, item) :: rest =>
    if k = key then
      (f (some item)).map fun
        | none => rest
        | some item => (key, item) :: rest
    else (alter key f rest).map ((k, item) :: ·)

def alterEntry (key : String) (f : Option Item → Option (Option Item)) : Item → Option Item
  | .table implicit dotted entries => (alter key f entries).map (.table implicit dotted)
  | _ => none

/-- Changes the table at a path, which is made where it is missing. An array of tables stands for
its latest one. Keys with dots do not lead into a table that a header opened. -/
def within (dotted : Bool) (f : Item → Option Item) : List String → Item → Option Item
  | [], t => f t
  | key :: path, t =>
    t.alterEntry key fun
      | none => (within dotted f path (.table true dotted [])).map some
      | some (.value _) => none
      | some (.tables []) => none
      | some (.tables (latest :: earlier)) =>
        (within dotted f path latest).map fun t => some (.tables (t :: earlier))
      | some (.table implicit dotted' entries) =>
        if dotted && !implicit then none
        else (within dotted f path (.table implicit dotted' entries)).map some

def addEntry (hasDots : Bool) (key : String) (item : Item) : Item → Option Item
  | .table implicit dotted entries =>
    if dotted = hasDots then
      alterEntry key (fun
        | none => some (some item)
        | some _ => none) (.table implicit dotted entries)
    else none
  | _ => none

def insert (keys : List String) (v : Value) (t : Item) : Option Item :=
  match keys.getLast? with
  | none => none
  | some key => within true (addEntry (1 < keys.length) key (.value v)) keys.dropLast t

def insertAll (t : Item) (pairs : List (List String × Value)) : Option Item :=
  pairs.foldlM (fun t (keys, v) => insert keys v t) t

def openTable (keys : List String) (pairs : List (List String × Value)) (root : Item) :
    Option Item :=
  match keys.getLast? with
  | none => none
  | some key =>
    within false (alterEntry key fun
      | none => (insertAll empty pairs).map some
      | some (.table true false entries) => (insertAll (.table false false entries) pairs).map some
      | some _ => none) keys.dropLast root

def openElement (keys : List String) (pairs : List (List String × Value)) (root : Item) :
    Option Item :=
  match keys.getLast? with
  | none => none
  | some key =>
    within false (alterEntry key fun
      | none => (insertAll empty pairs).map fun t => some (.tables [t])
      | some (.tables elements) =>
        (insertAll empty pairs).map fun t => some (.tables (t :: elements))
      | some _ => none) keys.dropLast root

end Item
end LedgerFeed.Toml
