import LedgerFeed.Net.Address
import LedgerFeed.Net.Domain
import LedgerFeed.Net.Url

/-! The reader of URLs that the program itself is given: which texts are URLs, what is wrong with
the others, and the scheme. Paths, queries and fragments can hold anything. -/

namespace LedgerFeed.Net

inductive UrlFault where
  | relative
  | emptyHost
  | port
  | ipv4
  | ipv6
  | domain
  | hostCharacter
  deriving DecidableEq

def UrlFault.message : UrlFault → String
  | relative => "relative URL without a base"
  | emptyHost => "empty host"
  | port => "invalid port number"
  | ipv4 => "invalid IPv4 address"
  | ipv6 => "invalid IPv6 address"
  | domain => "invalid international domain name"
  | hostCharacter => "invalid domain character"

inductive SchemeFamily where
  | web
  | file
  | other
  deriving DecidableEq

def SchemeFamily.ofScheme (scheme : String) : SchemeFamily :=
  if scheme = "file" then .file
  else if ["http", "https", "ws", "wss", "ftp"].contains scheme then .web
  else .other

namespace Url

/-- Drops control characters and spaces about the text, and tabs and line breaks within it. -/
def cleaned (text : String) : List Char :=
  let isOuter := fun c : Char => c.toNat ≤ 0x20
  let inner := ((text.toList.dropWhile isOuter).reverse.dropWhile isOuter).reverse
  inner.filter fun c => !(c = '\t' || c = '\n' || c = '\r')

def isSchemeChar (c : Char) : Bool :=
  c.isAlphanum || c = '+' || c = '-' || c = '.'

def scheme? (cs : List Char) : Option (String × List Char) :=
  if cs.head?.any Char.isAlpha then
    match cs.dropWhile isSchemeChar with
    | ':' :: rest => some (String.ofList ((cs.takeWhile isSchemeChar).map Char.toLower), rest)
    | _ => none
  else none

def endsAuthority (backslash : Bool) (c : Char) : Bool :=
  c = '/' || c = '?' || c = '#' || (backslash && c = '\\')

def splitAtLastAt? : List Char → Option (List Char × List Char)
  | [] => none
  | c :: rest =>
    match splitAtLastAt? rest with
    | some (before, after) => some (c :: before, after)
    | none => if c = '@' then some ([], rest) else none

def splitHost (backslash : Bool) : Bool → List Char → List Char × List Char
  | _, [] => ([], [])
  | inside, c :: rest =>
    if (c = ':' && !inside) || endsAuthority backslash c then ([], c :: rest)
    else
      let inside := if c = '[' then true else if c = ']' then false else inside
      let (host, after) := splitHost backslash inside rest
      (c :: host, after)

def ipv4Number? : List Char → Option Nat
  | [] => none
  | '0' :: x :: digits =>
    if x = 'x' || x = 'X' then Hex.number? 16 digits else Hex.number? 8 (x :: digits)
  | digits => Hex.number? 10 digits

def isNumber (part : List Char) : Bool :=
  (part ≠ [] && part.all Char.isDigit) || (ipv4Number? part).isSome

def endsInNumber (domain : List Char) : Bool :=
  match (domain.splitOn '.').reverse with
  | [] :: part :: _ => isNumber part
  | part :: _ => isNumber part
  | [] => false

/-- Up to four numbers of a byte each, but that the last fills what the others leave. -/
def isLooseIPv4 (domain : List Char) : Bool :=
  let parts := domain.splitOn '.'
  let parts := if parts.getLast? = some [] then parts.dropLast else parts
  match parts.mapM ipv4Number? with
  | none => false
  | some numbers =>
    numbers.length ≤ 4 && numbers.dropLast.all (· ≤ 255) &&
      numbers.getLast?.any (· < Nat.pow 256 (5 - numbers.length))

def percentDecoded : List UInt8 → List UInt8
  | [] => []
  | 0x25 :: a :: b :: rest =>
    match Hex.value? (Char.ofNat a.toNat), Hex.value? (Char.ofNat b.toNat) with
    | some high, some low => UInt8.ofNat (16 * high + low) :: percentDecoded rest
    | _, _ => 0x25 :: percentDecoded (a :: b :: rest)
  | byte :: rest => byte :: percentDecoded rest

def decodedHost? (host : List Char) : Option (List Char) :=
  let bytes := percentDecoded (String.ofList host).toUTF8.toList
  (String.fromUTF8? bytes.toByteArray).map String.toList

def bracketFault? (host : List Char) : Option UrlFault :=
  if host.getLast? = some ']' ∧ Net.isIPv6 (host.drop 1).dropLast then none else some .ipv6

def domainFault? (host : List Char) : Option UrlFault :=
  if host.head? = some '[' then bracketFault? host
  else
    match (decodedHost? host).bind domain? with
    | none => some .domain
    | some [] => some .emptyHost
    | some domain => if endsInNumber domain && !isLooseIPv4 domain then some .ipv4 else none

def opaqueHostFault? (host : List Char) : Option UrlFault :=
  if host.head? = some '[' then bracketFault? host
  else if host.any fun c => "\x00\t\n\r #/:<>?@[\\]^|".toList.contains c then some .hostCharacter
  else none

def portFault? (cs : List Char) : Option UrlFault :=
  let digits := cs.takeWhile Char.isDigit
  if Nat.ofDigitChars 10 digits 0 > 0xFFFF then some .port
  else if (cs.drop digits.length).head?.any fun c => !endsAuthority true c then some .port
  else none

def authorityFault? (web : Bool) (cs : List Char) : Option UrlFault :=
  let authority := cs.takeWhile fun c => !endsAuthority web c
  let path := cs.dropWhile fun c => !endsAuthority web c
  let (user, rest) :=
    match splitAtLastAt? authority with
    | none => ([], authority)
    | some (user, rest) => (user, rest)
  if user = [] ∧ authority.head? = some '@' ∧ rest = [] ∧ path ≠ [] then some .emptyHost
  else
    let (host, after) := splitHost web false (rest ++ path)
    if host = [] ∧ (web ∨ after.head? = some ':' ∨ (user ≠ [] ∧ user ≠ [':'])) then
      some .emptyHost
    else
      (if web then domainFault? host else opaqueHostFault? host).or
        (if after.head? = some ':' then portFault? (after.drop 1) else none)

def isSlash (c : Char) : Bool :=
  c = '/' || c = '\\'

def isDriveLetter : List Char → Bool
  | [letter, mark] => letter.isAlpha && (mark = ':' || mark = '|')
  | _ => false

def fileFault? : List Char → Option UrlFault
  | a :: b :: rest =>
    let host := rest.takeWhile fun c => !endsAuthority true c
    if isSlash a && isSlash b && host ≠ [] && !isDriveLetter host then domainFault? host else none
  | _ => none

def fault? (family : SchemeFamily) (cs : List Char) : Option UrlFault :=
  match family with
  | .web => authorityFault? true (cs.dropWhile isSlash)
  | .file => fileFault? cs
  | .other =>
    match cs with
    | '/' :: '/' :: rest => authorityFault? false rest
    | _ => none

def scheme (text : String) : Except UrlFault String :=
  match scheme? (cleaned text) with
  | none => .error .relative
  | some (scheme, rest) =>
    match fault? (.ofScheme scheme) rest with
    | some fault => .error fault
    | none => .ok scheme

def reader : UrlReader where
  scheme text := (scheme text).mapError UrlFault.message

end Url
end LedgerFeed.Net
