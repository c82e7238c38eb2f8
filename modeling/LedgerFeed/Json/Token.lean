import LedgerFeed.Text.Decimal
import LedgerFeed.Text.Hex

/-! The tokens of JSON text: their spelling, and the lexer that finds them. A string token whose
escapes leave a UTF-16 surrogate unpaired is a token, but denotes no text. -/

namespace LedgerFeed.Json

inductive Token where
  | openArray
  | closeArray
  | openObject
  | closeObject
  | comma
  | colon
  | null
  | bool (b : Bool)
  | integer (n : Int)
  | real (literal : String)
  /-- The text, or `none` if a surrogate escape stands alone. -/
  | string (text : Option String)
  deriving DecidableEq

def isBlank (c : Char) : Bool :=
  c = ' ' || c = '\n' || c = '\t' || c = '\r'

def hexUnit? (a b c d : Char) : Option Nat := do
  return (((← Hex.value? a) * 16 + (← Hex.value? b)) * 16 + (← Hex.value? c)) * 16 +
    (← Hex.value? d)

def escape (c : Char) : List Char :=
  if c = '"' then ['\\', '"']
  else if c = '\\' then ['\\', '\\']
  else if c = '\n' then ['\\', 'n']
  else if c = '\r' then ['\\', 'r']
  else if c = '\t' then ['\\', 't']
  else if c = '\x08' then ['\\', 'b']
  else if c = '\x0c' then ['\\', 'f']
  else if c.toNat < 0x20 then
    ['\\', 'u', '0', '0', Hex.digit (c.toNat / 16), Hex.digit (c.toNat % 16)]
  else [c]

def unescape? (c : Char) : Option Char :=
  match c with
  | '"' => some '"'
  | '\\' => some '\\'
  | '/' => some '/'
  | 'n' => some '\n'
  | 'r' => some '\r'
  | 't' => some '\t'
  | 'b' => some '\x08'
  | 'f' => some '\x0c'
  | _ => none

def Token.chars : Token → List Char
  | openArray => ['[']
  | closeArray => [']']
  | openObject => ['\x7b']
  | closeObject => ['\x7d']
  | comma => [',']
  | colon => [':']
  | null => ['n', 'u', 'l', 'l']
  | bool true => ['t', 'r', 'u', 'e']
  | bool false => ['f', 'a', 'l', 's', 'e']
  | integer (.ofNat n) => (Decimal.text n).toList
  | integer (.negSucc n) => '-' :: (Decimal.text (n + 1)).toList
  | real literal => literal.toList
  | string text => '"' :: (text.getD "").toList.flatMap escape ++ ['"']

inductive Piece where
  | char (c : Char)
  | unit (u : Nat)

def isHighSurrogate (u : Nat) : Bool :=
  0xD800 ≤ u && u < 0xDC00

def isLowSurrogate (u : Nat) : Bool :=
  0xDC00 ≤ u && u < 0xE000

/-- The text of a string body, given a high surrogate that still waits for its partner. -/
def joinPieces : Option Nat → List Piece → Option (List Char)
  | none, [] => some []
  | some _, [] => none
  | none, .char c :: rest => (joinPieces none rest).map (c :: ·)
  | some _, .char _ :: _ => none
  | none, .unit u :: rest =>
    if isHighSurrogate u then joinPieces (some u) rest
    else if isLowSurrogate u then none
    else (joinPieces none rest).map (Char.ofNat u :: ·)
  | some high, .unit low :: rest =>
    if isLowSurrogate low then
      (joinPieces none rest).map
        (Char.ofNat (0x10000 + (high - 0xD800) * 0x400 + (low - 0xDC00)) :: ·)
    else none

def stringBody : List Char → Option (List Piece × List Char)
  | [] => none
  | '"' :: rest => some ([], rest)
  | '\\' :: 'u' :: a :: b :: c :: d :: rest =>
    match hexUnit? a b c d with
    | some u => (stringBody rest).map fun (ps, r) => (.unit u :: ps, r)
    | none => none
  | '\\' :: c :: rest =>
    match unescape? c with
    | some e => (stringBody rest).map fun (ps, r) => (.char e :: ps, r)
    | none => none
  | c :: rest =>
    if c.toNat < 0x20 || c = '\\' then none
    else (stringBody rest).map fun (ps, r) => (.char c :: ps, r)

theorem length_stringBody {cs : List Char} {ps : List Piece} {rest : List Char}
    (h : stringBody cs = some (ps, rest)) : rest.length < cs.length := by
  fun_induction stringBody cs generalizing ps <;> simp_all <;> grind

def digits? (cs : List Char) : Option (List Char × List Char) :=
  if cs.takeWhile Char.isDigit = [] then none
  else some (cs.takeWhile Char.isDigit, cs.dropWhile Char.isDigit)

theorem length_digits? {cs ds rest : List Char} (h : digits? cs = some (ds, rest)) :
    ds.length + rest.length = cs.length ∧ 0 < ds.length := by
  unfold digits? at h
  split at h
  · simp at h
  · next hne =>
    obtain ⟨rfl, rfl⟩ := by simpa using h
    refine ⟨?_, List.length_pos_iff.mpr hne⟩
    rw [← List.length_append, List.takeWhile_append_dropWhile]

def fraction? : List Char → Option (List Char × List Char)
  | '.' :: rest => (digits? rest).map fun (ds, r) => ('.' :: ds, r)
  | rest => some ([], rest)

def exponent? : List Char → Option (List Char × List Char)
  | e :: rest =>
    if e = 'e' || e = 'E' then
      match rest with
      | '+' :: r => (digits? r).map fun (ds, r) => (e :: '+' :: ds, r)
      | '-' :: r => (digits? r).map fun (ds, r) => (e :: '-' :: ds, r)
      | r => (digits? r).map fun (ds, r) => (e :: ds, r)
    else some ([], e :: rest)
  | [] => some ([], [])

theorem length_fraction? {cs ds rest : List Char} (h : fraction? cs = some (ds, rest)) :
    rest.length ≤ cs.length := by
  unfold fraction? at h
  split at h
  · obtain ⟨⟨ds', r⟩, hd, he⟩ := Option.map_eq_some_iff.1 h
    have := length_digits? hd
    grind
  · grind

theorem length_exponent? {cs ds rest : List Char} (h : exponent? cs = some (ds, rest)) :
    rest.length ≤ cs.length := by
  unfold exponent? at h
  split at h
  · split at h
    · split at h <;>
      · obtain ⟨⟨ds', r⟩, hd, he⟩ := Option.map_eq_some_iff.1 h
        have := length_digits? hd
        grind
    · grind
  · grind

/-- The token of a number in its parts. Without fraction and exponent it is an integer, but for
the zero with a sign. -/
def numeral (negative : Bool) (whole fraction exponent : List Char) : Token :=
  let n := Nat.ofDigitChars 10 whole 0
  if fraction = [] ∧ exponent = [] ∧ (negative = false ∨ n ≠ 0) then
    .integer (if negative then -n else n)
  else
    .real (String.ofList ((if negative then ['-'] else []) ++ whole ++ fraction ++ exponent))

def number? (negative : Bool) (cs : List Char) : Option (Token × List Char) :=
  match digits? cs with
  | none => none
  | some (whole, afterWhole) =>
    if whole.length > 1 ∧ whole.head? = some '0' then none
    else
      match fraction? afterWhole with
      | none => none
      | some (fraction, afterFraction) =>
        (exponent? afterFraction).map fun (exponent, rest) =>
          (numeral negative whole fraction exponent, rest)

def token? : List Char → Option (Token × List Char)
  | '[' :: rest => some (.openArray, rest)
  | ']' :: rest => some (.closeArray, rest)
  | '\x7b' :: rest => some (.openObject, rest)
  | '\x7d' :: rest => some (.closeObject, rest)
  | ',' :: rest => some (.comma, rest)
  | ':' :: rest => some (.colon, rest)
  | 'n' :: 'u' :: 'l' :: 'l' :: rest => some (.null, rest)
  | 't' :: 'r' :: 'u' :: 'e' :: rest => some (.bool true, rest)
  | 'f' :: 'a' :: 'l' :: 's' :: 'e' :: rest => some (.bool false, rest)
  | '"' :: rest =>
    (stringBody rest).map fun (ps, r) => (.string ((joinPieces none ps).map String.ofList), r)
  | '-' :: rest => number? true rest
  | rest => number? false rest

theorem length_number? {negative : Bool} {cs rest : List Char} {t : Token}
    (h : number? negative cs = some (t, rest)) : rest.length < cs.length := by
  unfold number? at h
  split at h
  · simp at h
  · next hd =>
    have h1 := length_digits? hd
    split at h
    · simp at h
    · split at h
      · simp at h
      · next hf =>
        have h2 := length_fraction? hf
        obtain ⟨⟨ds, r⟩, he, heq⟩ := Option.map_eq_some_iff.1 h
        have h3 := length_exponent? he
        grind

theorem length_token? {cs rest : List Char} {t : Token} (h : token? cs = some (t, rest)) :
    rest.length < cs.length := by
  unfold token? at h
  split at h
  case h_10 =>
    obtain ⟨⟨ps, r⟩, hb, he⟩ := Option.map_eq_some_iff.1 h
    have := length_stringBody hb
    grind
  case h_11 => have := length_number? h; grind
  case h_12 => exact length_number? h
  all_goals grind

def tokens? (cs : List Char) : Option (List Token) :=
  match _hb : cs.dropWhile isBlank with
  | [] => some []
  | c :: more =>
    match _h : token? (c :: more) with
    | none => none
    | some (t, rest) => (tokens? rest).map (t :: ·)
termination_by cs.length
decreasing_by
  have h1 := length_token? _h
  have h2 : (cs.dropWhile isBlank).length ≤ cs.length := (List.dropWhile_suffix isBlank).length_le
  rw [_hb] at h2
  omega

end LedgerFeed.Json
