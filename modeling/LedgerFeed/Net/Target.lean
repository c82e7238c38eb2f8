import LedgerFeed.Net.Url.Syntax

/-! Where an HTTP URL leads: the host and port to connect to, and what to ask for there. -/

namespace LedgerFeed.Net

structure Target where
  host : String
  port : UInt16
  path : String
  deriving DecidableEq

namespace Target

def isPathChar (c : Char) : Bool :=
  0x20 < c.toNat && c.toNat < 0x7F && !"\"<>`\x7b\x7d".toList.contains c

def pathChar (c : Char) : List Char :=
  if isPathChar c then [c]
  else
    (String.ofList [c]).toUTF8.toList.flatMap fun byte =>
      ['%', Hex.digit (byte.toNat / 16), Hex.digit (byte.toNat % 16)]

def pathOf (rest : List Char) : String :=
  let sent := (rest.takeWhile (· ≠ '#')).flatMap pathChar
  String.ofList (if sent.head?.any Url.isSlash then '/' :: sent.drop 1 else '/' :: sent)

def hostOf? (host : List Char) : Option String :=
  if host.head? = some '[' then some (String.ofList (host.drop 1).dropLast)
  else ((Url.decodedHost? host).bind domain?).map String.ofList

def ofUrl? (url : String) : Option Target := do
  guard (Url.scheme url matches .ok "http")
  let (_, rest) ← Url.scheme? (Url.cleaned url)
  let rest := rest.dropWhile Url.isSlash
  let authority := rest.takeWhile fun c => !Url.endsAuthority true c
  let named := ((Url.splitAtLastAt? authority).map Prod.snd).getD authority
  let (host, port) := Url.splitHost true false named
  let digits := port.drop 1
  return { host := ← hostOf? host
           port := if digits = [] then 80 else UInt16.ofNat (Nat.ofDigitChars 10 digits 0)
           path := pathOf (rest.drop authority.length) }

def name (t : Target) : String :=
  let host := if t.host.toList.contains ':' then s!"[{t.host}]" else t.host
  if t.port = 80 then host else s!"{host}:{t.port}"

end Target
end LedgerFeed.Net
