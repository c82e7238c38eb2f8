import LedgerFeed.Text.CodePoints
import LedgerFeed.Text.Hex

/-! Text in quotes for people who look for errors: what cannot be seen is written as an escape. -/

namespace LedgerFeed.Quoted

def codePoint (c : Char) : List Char :=
  "\\u\x7b".toList ++ Nat.toDigits 16 c.toNat ++ ['\x7d']

def char (c : Char) : List Char :=
  match c with
  | '\x00' => ['\\', '0']
  | '\t' => ['\\', 't']
  | '\r' => ['\\', 'r']
  | '\n' => ['\\', 'n']
  | '"' => ['\\', '"']
  | '\\' => ['\\', '\\']
  | c => if CodePoints.isExtending c || !CodePoints.isPrintable c then codePoint c else [c]

def text (s : String) : String :=
  String.ofList ('"' :: s.toList.flatMap char ++ ['"'])

end LedgerFeed.Quoted
