import LedgerFeed.Text.Hex

/-! The lexical parts of TOML: blanks, comments, line ends, strings and keys. Each reader gives what
it read and the text that remains. -/

namespace LedgerFeed.Toml

def isBlank (c : Char) : Bool :=
  c = ' ' || c = '\t'

def isAllowed (c : Char) : Bool :=
  c = '\t' || (0x20 ≤ c.toNat && c.toNat ≠ 0x7F)

def skipBlanks (cs : List Char) : List Char :=
  cs.dropWhile isBlank

def skipComment : List Char → List Char
  | '#' :: rest => rest.dropWhile isAllowed
  | cs => cs

def lineBreak? : List Char → Option (List Char)
  | '\n' :: rest => some rest
  | '\r' :: '\n' :: rest => some rest
  | _ => none

def lineEnd? (cs : List Char) : Option (List Char) :=
  match skipComment (skipBlanks cs) with
  | [] => some []
  | rest => lineBreak? rest

def skipLines : (comment : Bool) → List Char → List Char
  | _, [] => []
  | _, '\n' :: rest => skipLines false rest
  | _, '\r' :: '\n' :: rest => skipLines false rest
  | true, c :: rest => if isAllowed c then skipLines true rest else c :: rest
  | false, c :: rest =>
    if isBlank c then skipLines false rest
    else if c = '#' then skipLines true rest
    else c :: rest

def scalar? (n : Nat) : Option Char :=
  if n < 0xD800 ∨ (0xE000 ≤ n ∧ n < 0x110000) then some (Char.ofNat n) else none

def escape? : List Char → Option (Char × List Char)
  | 'b' :: rest => some ('\x08', rest)
  | 't' :: rest => some ('\t', rest)
  | 'n' :: rest => some ('\n', rest)
  | 'f' :: rest => some ('\x0c', rest)
  | 'r' :: rest => some ('\r', rest)
  | '"' :: rest => some ('"', rest)
  | '\\' :: rest => some ('\\', rest)
  | 'u' :: rest => unicode 4 rest
  | 'U' :: rest => unicode 8 rest
  | _ => none
where
  unicode (width : Nat) (cs : List Char) : Option (Char × List Char) :=
    if (cs.take width).length < width then none
    else ((Hex.number? 16 (cs.take width)).bind scalar?).map (·, cs.drop width)

theorem length_escape? {cs rest : List Char} {c : Char} (h : escape? cs = some (c, rest)) :
    rest.length ≤ cs.length := by
  unfold escape? at h
  split at h
  all_goals first
    | grind
    | (unfold escape?.unicode at h
       split at h
       · simp at h
       · obtain ⟨_, _, he⟩ := Option.map_eq_some_iff.1 h
         simp only [Prod.mk.injEq] at he
         rw [← he.2, List.length_drop, List.length_cons]
         omega)

def basicString? : List Char → Option (List Char × List Char)
  | [] => none
  | '"' :: rest => some ([], rest)
  | '\\' :: rest =>
    match _h : escape? rest with
    | none => none
    | some (c, rest) => (basicString? rest).map fun (s, r) => (c :: s, r)
  | c :: rest =>
    if isAllowed c then (basicString? rest).map fun (s, r) => (c :: s, r) else none
termination_by cs => cs.length
decreasing_by
  · have := length_escape? _h
    simp only [List.length_cons]
    omega
  · simp

def literalString? : List Char → Option (List Char × List Char)
  | [] => none
  | '\'' :: rest => some ([], rest)
  | c :: rest =>
    if isAllowed c then (literalString? rest).map fun (s, r) => (c :: s, r) else none

/-- Ends a string of several lines at its mark: up to two more marks before the closing three
belong to it. -/
def closing? (mark : Char) : List Char → Option (List Char × List Char)
  | a :: b :: c :: rest =>
    if a = mark ∧ b = mark ∧ c = mark then
      match rest with
      | d :: e :: more =>
        if d = mark then
          if e = mark then some ([mark, mark], more) else some ([mark], e :: more)
        else some ([], rest)
      | [d] => if d = mark then some ([mark], []) else some ([], rest)
      | [] => some ([], [])
    else none
  | _ => none

def afterContinuation? (cs : List Char) : Option (List Char) :=
  (lineBreak? (skipBlanks cs)).map (List.dropWhile fun c => isBlank c || c = '\n' || c = '\r')

def multilineBasic? : Nat → List Char → Option (List Char × List Char)
  | 0, _ => none
  | fuel + 1, cs =>
    match closing? '"' cs with
    | some done => some done
    | none =>
      match cs with
      | [] => none
      | '\n' :: rest => (multilineBasic? fuel rest).map fun (s, r) => ('\n' :: s, r)
      | '\r' :: '\n' :: rest => (multilineBasic? fuel rest).map fun (s, r) => ('\n' :: s, r)
      | '\\' :: rest =>
        match afterContinuation? rest with
        | some rest => multilineBasic? fuel rest
        | none =>
          match escape? rest with
          | none => none
          | some (c, rest) => (multilineBasic? fuel rest).map fun (s, r) => (c :: s, r)
      | c :: rest =>
        if isAllowed c then (multilineBasic? fuel rest).map fun (s, r) => (c :: s, r) else none

def multilineLiteral? : Nat → List Char → Option (List Char × List Char)
  | 0, _ => none
  | fuel + 1, cs =>
    match closing? '\'' cs with
    | some done => some done
    | none =>
      match cs with
      | [] => none
      | '\n' :: rest => (multilineLiteral? fuel rest).map fun (s, r) => ('\n' :: s, r)
      | '\r' :: '\n' :: rest => (multilineLiteral? fuel rest).map fun (s, r) => ('\n' :: s, r)
      | c :: rest =>
        if isAllowed c then (multilineLiteral? fuel rest).map fun (s, r) => (c :: s, r) else none

def skipFirstBreak (cs : List Char) : List Char :=
  (lineBreak? cs).getD cs

def string? : List Char → Option (String × List Char)
  | '"' :: '"' :: '"' :: rest =>
    (multilineBasic? (rest.length + 1) (skipFirstBreak rest)).map fun (s, r) => (.ofList s, r)
  | '"' :: rest => (basicString? rest).map fun (s, r) => (.ofList s, r)
  | '\'' :: '\'' :: '\'' :: rest =>
    (multilineLiteral? (rest.length + 1) (skipFirstBreak rest)).map fun (s, r) => (.ofList s, r)
  | '\'' :: rest => (literalString? rest).map fun (s, r) => (.ofList s, r)
  | _ => none

def isBareKeyChar (c : Char) : Bool :=
  c.isAlphanum || c = '-' || c = '_'

def simpleKey? : List Char → Option (String × List Char)
  | '"' :: rest => (basicString? rest).map fun (s, r) => (.ofList s, r)
  | '\'' :: rest => (literalString? rest).map fun (s, r) => (.ofList s, r)
  | cs =>
    if cs.takeWhile isBareKeyChar = [] then none
    else some (.ofList (cs.takeWhile isBareKeyChar), cs.dropWhile isBareKeyChar)

def keys? : Nat → List Char → Option (List String × List Char)
  | 0, _ => none
  | fuel + 1, cs =>
    match simpleKey? (skipBlanks cs) with
    | none => none
    | some (key, rest) =>
      match skipBlanks rest with
      | '.' :: rest => (keys? fuel rest).map fun (ks, r) => (key :: ks, r)
      | rest => some ([key], rest)

end LedgerFeed.Toml
