import LedgerFeed.Text.Decimal
import LedgerFeed.Text.Hex

/-! Internet addresses: dotted IPv4 addresses, IPv6 addresses, and socket addresses. -/

namespace LedgerFeed.Net

def isByte (digits : List Char) : Bool :=
  match digits with
  | ['0'] => true
  | '0' :: _ => false
  | _ => digits.length ≤ 3 && (Decimal.value? digits).any (· ≤ 255)

def isIPv4 (cs : List Char) : Bool :=
  let parts := cs.splitOn '.'
  parts.length = 4 && parts.all isByte

def isGroup (cs : List Char) : Bool :=
  cs ≠ [] && cs.length ≤ 4 && cs.all fun c => (Hex.value? c).isSome

def groups? : List (List Char) → Option Nat
  | [] => some 0
  | [part] => if isGroup part then some 1 else if isIPv4 part then some 2 else none
  | part :: rest => if isGroup part then (groups? rest).map (· + 1) else none

def splitAtGap? : List Char → Option (List Char × List Char)
  | [] => none
  | ':' :: ':' :: rest => some ([], rest)
  | c :: rest => (splitAtGap? rest).map fun (before, after) => (c :: before, after)

def sideGroups? (cs : List Char) : Option Nat :=
  if cs = [] then some 0 else groups? (cs.splitOn ':')

def isIPv6 (cs : List Char) : Bool :=
  match splitAtGap? cs with
  | none => sideGroups? cs = some 8
  | some (before, after) =>
    match sideGroups? before, sideGroups? after with
    | some m, some n => m + n < 8 && !before.contains '.'
    | _, _ => false

def isNumberUpTo (greatest : Nat) (digits : List Char) : Bool :=
  (Decimal.value? digits).any (· ≤ greatest)

def isPort (cs : List Char) : Bool :=
  isNumberUpTo 0xFFFF cs

def isScopedIPv6 (cs : List Char) : Bool :=
  match cs.dropWhile (· ≠ '%') with
  | '%' :: scope => isIPv6 (cs.takeWhile (· ≠ '%')) && isNumberUpTo 0xFFFFFFFF scope
  | _ => isIPv6 cs

def isSocketAddress (text : String) : Bool :=
  match text.toList with
  | '[' :: rest =>
    match rest.dropWhile (· ≠ ']') with
    | ']' :: ':' :: port => isScopedIPv6 (rest.takeWhile (· ≠ ']')) && isPort port
    | _ => false
  | cs =>
    match cs.dropWhile (· ≠ ':') with
    | ':' :: port => isIPv4 (cs.takeWhile (· ≠ ':')) && isPort port
    | _ => false

end LedgerFeed.Net
