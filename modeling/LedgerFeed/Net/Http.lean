import LedgerFeed.Net.Target

/-! HTTP: the request that posts a JSON text, and the answer in what has come back so far. -/

namespace LedgerFeed.Net.Http

def post (target : Target) (json : String) : ByteArray :=
  let lines :=
    [ s!"POST {target.path} HTTP/1.1",
      s!"Host: {target.name}",
      "Content-Type: application/json",
      "Accept: */*",
      "Connection: close",
      s!"Content-Length: {json.utf8ByteSize}",
      "",
      json ]
  ("\r\n".intercalate lines).toUTF8

inductive Received where
  | incomplete
  | malformed
  | answer (status : UInt16) (body : Option ByteArray)

def splitLine? : List UInt8 → Option (List UInt8 × List UInt8)
  | [] => none
  | 13 :: 10 :: rest => some ([], rest)
  | byte :: rest => (splitLine? rest).map fun (line, after) => (byte :: line, after)

theorem length_splitLine? {bytes line after : List UInt8}
    (h : splitLine? bytes = some (line, after)) : after.length < bytes.length := by
  fun_induction splitLine? bytes generalizing line with
  | case1 => simp at h
  | case2 =>
    simp only [Option.some.injEq, Prod.mk.injEq] at h
    simp only [← h.2, List.length_cons]
    omega
  | case3 byte rest _ ih =>
    obtain ⟨⟨l, a⟩, hr, he⟩ := Option.map_eq_some_iff.1 h
    simp only [Prod.mk.injEq] at he
    have := ih (he.2 ▸ hr)
    simp only [List.length_cons]
    omega

def textOf (bytes : List UInt8) : List Char :=
  bytes.map fun byte => Char.ofNat byte.toNat

def splitHead? (bytes : List UInt8) : Option (List (List Char) × List UInt8) :=
  match _h : splitLine? bytes with
  | none => none
  | some ([], after) => some ([], after)
  | some (line, after) => (splitHead? after).map fun (lines, body) => (textOf line :: lines, body)
termination_by bytes.length
decreasing_by exact length_splitLine? _h

def status? (line : List Char) : Option UInt16 :=
  match line.splitOn ' ' with
  | version :: status :: _ =>
    if "HTTP/1.".toList.isPrefixOf version && status.length = 3 then
      (Decimal.value? status).map UInt16.ofNat
    else none
  | _ => none

def isBlank (c : Char) : Bool :=
  c = ' ' || c = '\t'

def header? (name : String) (lines : List (List Char)) : Option (List Char) :=
  lines.findSome? fun line =>
    if (line.takeWhile (· ≠ ':')).map Char.toLower = name.toList then
      let value := (line.dropWhile (· ≠ ':')).drop 1
      some ((value.dropWhile isBlank).reverse.dropWhile isBlank).reverse
    else none

def chunks? (bytes : List UInt8) : Option (List UInt8) :=
  match _h : splitLine? bytes with
  | none => none
  | some (line, after) =>
    match Hex.number? 16 ((textOf line).takeWhile fun c => (Hex.value? c).isSome) with
    | none => none
    | some 0 => if line.head? = some 48 then some [] else none
    | some size =>
      if after.length < size + 2 then none
      else (chunks? (after.drop (size + 2))).map (after.take size ++ ·)
termination_by bytes.length
decreasing_by
  have := length_splitLine? _h
  simp only [List.length_drop]
  omega

/-- The body of an answer, unless more of it has to come. Without a length it ends with the
connection. -/
def body? (ended : Bool) (status : UInt16) (lines : List (List Char)) (bytes : List UInt8) :
    Option (List UInt8) :=
  if status = 204 ∨ status = 304 then some []
  else if header? "transfer-encoding" lines = some "chunked".toList then chunks? bytes
  else
    match (header? "content-length" lines).bind Decimal.value? with
    | some size => if bytes.length < size then none else some (bytes.take size)
    | none => if ended then some bytes else none

/-- What has been received, once the connection has `ended` or before. -/
def received (ended : Bool) (bytes : List UInt8) : Received :=
  match splitHead? bytes with
  | none => if ended then .malformed else .incomplete
  | some ([], _) => .malformed
  | some (first :: lines, rest) =>
    match status? first with
    | none => .malformed
    | some status =>
      match body? ended status lines rest with
      | some body => .answer status (some body.toByteArray)
      | none => if ended then .answer status none else .incomplete

end LedgerFeed.Net.Http
