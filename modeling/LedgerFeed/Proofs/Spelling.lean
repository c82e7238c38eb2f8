import Mathlib.Tactic.ByContra
import LedgerFeed.Json.Token

/-! The spelling of tokens against the lexer: what is written for a token is read as this token, and
no line feed is ever written. -/

namespace LedgerFeed.Json

/-! Strings. -/

def lettered : List Char := ['"', '\\', '\n', '\r', '\t', '\x08', '\x0c']

theorem escape_cases (c : Char) :
    c ∈ lettered ∨
    c ∉ lettered ∧ c.toNat < 0x20 ∧
      escape c = ['\\', 'u', '0', '0', Hex.digit (c.toNat / 16), Hex.digit (c.toNat % 16)] ∨
    c ∉ lettered ∧ ¬c.toNat < 0x20 ∧ escape c = [c] := by
  by_cases hletter : c ∈ lettered
  · exact .inl hletter
  · have hnone := hletter
    simp only [lettered, List.mem_cons, List.not_mem_nil, or_false, not_or] at hnone
    obtain ⟨hquote, hbackslash, hn, hr, ht, hb, hf⟩ := hnone
    by_cases hcontrol : c.toNat < 0x20
    · refine .inr (.inl ⟨hletter, hcontrol, ?_⟩)
      simp [escape, hquote, hbackslash, hn, hr, ht, hb, hf, hcontrol]
    · refine .inr (.inr ⟨hletter, hcontrol, ?_⟩)
      simp [escape, hquote, hbackslash, hn, hr, ht, hb, hf, hcontrol]

def spelled (c : Char) : Piece :=
  if c.toNat < 0x20 ∧ c ∉ lettered then .unit c.toNat else .char c

theorem hexUnit?_digits {n : Nat} (h : n < 0x20) :
    hexUnit? '0' '0' (Hex.digit (n / 16)) (Hex.digit (n % 16)) = some n := by
  have hzero : Hex.value? '0' = some 0 := by decide
  rw [hexUnit?, hzero, Hex.value?_digit _ (by omega), Hex.value?_digit _ (by omega)]
  change some _ = _
  rw [Option.some.injEq]
  omega

theorem stringBody_plain {c : Char} (hletter : c ∉ lettered) (hcontrol : ¬c.toNat < 0x20)
    (rest : List Char) :
    stringBody (c :: rest) = (stringBody rest).map fun (ps, r) => (.char c :: ps, r) := by
  simp only [lettered, List.mem_cons, not_or] at hletter
  obtain ⟨hquote, hbackslash, -⟩ := hletter
  have hopen : (c.toNat < 0x20 || c = '\\') = false := by simp [hcontrol, hbackslash]
  rw [stringBody, if_neg (by simp [hopen])] <;> simp [hquote, hbackslash]

theorem stringBody_escape (c : Char) (rest : List Char) :
    stringBody (escape c ++ rest) =
      (stringBody rest).map fun (ps, r) => (spelled c :: ps, r) := by
  rcases escape_cases c with hletter | ⟨hletter, hcontrol, hescape⟩ | ⟨hletter, hcontrol, hescape⟩
  · simp only [lettered, List.mem_cons, List.not_mem_nil, or_false] at hletter
    rcases hletter with rfl | rfl | rfl | rfl | rfl | rfl | rfl <;> rfl
  · simp [hescape, stringBody, hexUnit?_digits hcontrol, spelled, hcontrol, hletter]
  · simp [hescape, stringBody_plain hletter hcontrol, spelled, hcontrol]

theorem stringBody_escapes (cs rest : List Char) :
    stringBody (cs.flatMap escape ++ '"' :: rest) = some (cs.map spelled, rest) := by
  induction cs with
  | nil => rfl
  | cons c cs ih => simp [stringBody_escape, ih]

theorem joinPieces_spelled (cs : List Char) : joinPieces none (cs.map spelled) = some cs := by
  induction cs with
  | nil => rfl
  | cons c cs ih =>
    rw [List.map_cons, spelled]
    split
    case isTrue hcontrol =>
      have hhigh : isHighSurrogate c.toNat = false := by simp [isHighSurrogate]; omega
      have hlow : isLowSurrogate c.toNat = false := by simp [isLowSurrogate]; omega
      simp [joinPieces, hhigh, hlow, ih]
    case isFalse => simp [joinPieces, ih]

/-! Numbers. -/

def Ends (rest : List Char) : Prop :=
  ∀ c ∈ rest.head?, c.isDigit = false ∧ c ≠ '.' ∧ c ≠ 'e' ∧ c ≠ 'E'

theorem ends_nil : Ends [] := by simp [Ends]

theorem isDigit_toDigits {n : Nat} {c : Char} (h : c ∈ Nat.toDigits 10 n) : c.isDigit = true :=
  Nat.isDigit_of_mem_toDigits (by decide) (by decide) h

theorem exists_toDigits_eq (n : Nat) :
    ∃ c cs, Nat.toDigits 10 n = c :: cs ∧ c.isDigit = true := by
  cases hcs : Nat.toDigits 10 n with
  | nil => exact absurd hcs (List.ne_nil_of_length_pos Nat.length_toDigits_pos)
  | cons c cs => exact ⟨c, cs, rfl, isDigit_toDigits (hcs ▸ List.mem_cons_self ..)⟩

theorem head?_toDigits {n : Nat} (h : n ≠ 0) : (Nat.toDigits 10 n).head? ≠ some '0' := by
  induction n using Nat.strongRecOn with
  | ind n ih =>
    by_cases hn : n < 10
    · rw [Nat.toDigits_of_lt_base hn]
      have hdigit : ∀ n < 10, n ≠ 0 → n.digitChar ≠ '0' := by decide
      simpa using hdigit n hn h
    · have hshorter := ih (n / 10) (by omega) (by omega)
      rw [Nat.toDigits_of_base_le (by decide) (by omega), List.head?_append]
      cases hhead : (Nat.toDigits 10 (n / 10)).head? with
      | some c => simpa [hhead] using hshorter
      | none => simp [List.head?_eq_none_iff] at hhead

theorem digits?_toDigits (n : Nat) {rest : List Char} (h : Ends rest) :
    digits? (Nat.toDigits 10 n ++ rest) = some (Nat.toDigits 10 n, rest) := by
  have hdigits : ∀ c ∈ Nat.toDigits 10 n, c.isDigit = true := fun _ => isDigit_toDigits
  have hrest : rest.takeWhile Char.isDigit = [] ∧ rest.dropWhile Char.isDigit = rest := by
    cases rest with
    | nil => exact ⟨rfl, rfl⟩
    | cons c rest => simp [(h c rfl).1]
  rw [digits?, List.takeWhile_append_of_pos hdigits, List.dropWhile_append_of_pos hdigits, hrest.1,
    hrest.2, List.append_nil, if_neg (List.ne_nil_of_length_pos Nat.length_toDigits_pos)]

theorem fraction?_of_ends {rest : List Char} (h : Ends rest) :
    fraction? rest = some ([], rest) := by
  unfold fraction?
  split
  case h_1 rest => exact absurd rfl (h '.' rfl).2.1
  case h_2 => rfl

theorem exponent?_of_ends {rest : List Char} (h : Ends rest) :
    exponent? rest = some ([], rest) := by
  cases rest with
  | nil => rfl
  | cons c rest =>
    obtain ⟨-, -, he, hE⟩ := h c rfl
    simp [exponent?, he, hE]

theorem number?_toDigits (negative : Bool) {n : Nat} (hn : negative = true → n ≠ 0)
    {rest : List Char} (h : Ends rest) :
    number? negative (Nat.toDigits 10 n ++ rest) =
      some (.integer (if negative then -n else n), rest) := by
  have hleading : ¬((Nat.toDigits 10 n).length > 1 ∧ (Nat.toDigits 10 n).head? = some '0') := by
    rintro ⟨hlong, hzero⟩
    by_cases h0 : n = 0
    · rw [h0] at hlong
      revert hlong
      decide
    · exact head?_toDigits h0 hzero
  have hsign : negative = false ∨ n ≠ 0 := by
    cases negative with
    | false => exact .inl rfl
    | true => exact .inr (hn rfl)
  have hnumeral : numeral negative (Nat.toDigits 10 n) [] [] =
      .integer (if negative then -n else n) := by
    simp [numeral, Nat.ofDigitChars_ten_toDigits, hsign]
  simp only [number?, digits?_toDigits n h, if_neg hleading, fraction?_of_ends h,
    exponent?_of_ends h, Option.map_some, hnumeral]

theorem token?_of_isDigit {c : Char} (h : c.isDigit = true) (rest : List Char) :
    token? (c :: rest) = number? false (c :: rest) := by
  unfold token?
  split
  case h_12 => rfl
  all_goals
    simp_all

/-! Tokens. -/

namespace Token

/-- Tokens that are spelled in one way only and denote something. -/
def Plain : Token → Prop
  | real _ | string none => False
  | _ => True

theorem token?_integer (n : Int) {rest : List Char} (h : Ends rest) :
    token? ((integer n).chars ++ rest) = some (integer n, rest) := by
  cases n with
  | ofNat n =>
    have hnumber := number?_toDigits false nofun h (n := n)
    obtain ⟨c, cs, hcs, hc⟩ := exists_toDigits_eq n
    rw [hcs] at hnumber
    rw [chars, Decimal.text, String.toList_ofList, hcs, List.cons_append, token?_of_isDigit hc]
    exact hnumber
  | negSucc n =>
    rw [chars, Decimal.text, String.toList_ofList]
    exact number?_toDigits true (fun _ => n.succ_ne_zero) h

theorem token?_chars {t : Token} (ht : t.Plain) {rest : List Char}
    (h : ∀ n, t = integer n → Ends rest) : token? (t.chars ++ rest) = some (t, rest) := by
  match t, ht with
  | openArray, _ | closeArray, _ | openObject, _ | closeObject, _ | comma, _ | colon, _ | null, _
  | bool true, _ | bool false, _ => rfl
  | integer n, _ => exact token?_integer n (h n rfl)
  | string (some text), _ => simp [chars, token?, stringBody_escapes, joinPieces_spelled]

theorem isBlank_of_isDigit {c : Char} (h : c.isDigit = true) : isBlank c = false := by
  by_contra hblank
  simp only [isBlank, Bool.not_eq_false, Bool.or_eq_true, decide_eq_true_eq] at hblank
  rcases hblank with ((rfl | rfl) | rfl) | rfl <;> cases h

theorem exists_chars_eq {t : Token} (ht : t.Plain) :
    ∃ c cs, t.chars = c :: cs ∧ isBlank c = false := by
  match t, ht with
  | openArray, _ | closeArray, _ | openObject, _ | closeObject, _ | comma, _ | colon, _ | null, _
  | bool true, _ | bool false, _ | integer (.negSucc n), _ | string (some text), _ =>
    exact ⟨_, _, rfl, rfl⟩
  | integer (.ofNat n), _ =>
    obtain ⟨c, cs, hcs, hc⟩ := exists_toDigits_eq n
    exact ⟨c, cs, by rw [chars, Decimal.text, String.toList_ofList, hcs], isBlank_of_isDigit hc⟩

theorem tokens?_chars_append {t : Token} (ht : t.Plain) {rest : List Char}
    (h : ∀ n, t = integer n → Ends rest) :
    tokens? (t.chars ++ rest) = (tokens? rest).map (t :: ·) := by
  obtain ⟨c, cs, hchars, hblank⟩ := exists_chars_eq ht
  have htoken := token?_chars ht h
  have hdrop : (t.chars ++ rest).dropWhile isBlank = c :: (cs ++ rest) := by simp [hchars, hblank]
  rw [hchars, List.cons_append] at htoken
  rw [tokens?]
  split
  case h_1 hnil => cases hdrop.symm.trans hnil
  case h_2 d more hcons =>
    obtain ⟨rfl, rfl⟩ := List.cons.inj (hdrop.symm.trans hcons)
    split
    case h_1 hnone => cases htoken.symm.trans hnone
    case h_2 t' rest' hsome =>
      obtain ⟨rfl, rfl⟩ := Prod.mk.inj (Option.some.inj (htoken.symm.trans hsome))
      rfl

theorem newline_not_mem_escape (c : Char) : '\n' ∉ escape c := by
  have hdigit : ∀ n < 16, '\n' ≠ Hex.digit n := by decide
  rcases escape_cases c with hletter | ⟨-, hcontrol, hescape⟩ | ⟨hletter, -, hescape⟩
  · simp only [lettered, List.mem_cons, List.not_mem_nil, or_false] at hletter
    rcases hletter with rfl | rfl | rfl | rfl | rfl | rfl | rfl <;> decide
  · simp [hescape, hdigit (c.toNat / 16) (by omega), hdigit (c.toNat % 16) (by omega)]
  · rw [hescape, List.mem_singleton]
    rintro rfl
    exact hletter (by decide)

theorem newline_not_mem_chars {t : Token} (ht : t.Plain) : '\n' ∉ t.chars := by
  have hdigits (n : Nat) : '\n' ∉ Nat.toDigits 10 n := fun hn => by cases isDigit_toDigits hn
  match t, ht with
  | openArray, _ | closeArray, _ | openObject, _ | closeObject, _ | comma, _ | colon, _ | null, _
  | bool true, _ | bool false, _ => decide
  | integer (.ofNat n), _ => simpa [chars, Decimal.text] using hdigits n
  | integer (.negSucc n), _ => simpa [chars, Decimal.text] using hdigits (n + 1)
  | string (some text), _ =>
    simp only [chars, Option.getD_some, List.mem_append, List.mem_cons, List.mem_flatMap,
      List.not_mem_nil, or_false, not_or, not_exists, not_and]
    exact ⟨⟨by decide, fun c _ => newline_not_mem_escape c⟩, by decide⟩

end Token
end LedgerFeed.Json
