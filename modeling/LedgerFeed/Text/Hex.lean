/-! Hexadecimal digits. -/

namespace LedgerFeed.Hex

def digit (n : Nat) : Char :=
  if n < 10 then Char.ofNat (n + 48) else Char.ofNat (n + 87)

def value? (c : Char) : Option Nat :=
  if '0' ≤ c ∧ c ≤ '9' then some (c.toNat - 48)
  else if 'a' ≤ c ∧ c ≤ 'f' then some (c.toNat - 87)
  else if 'A' ≤ c ∧ c ≤ 'F' then some (c.toNat - 55)
  else none

theorem value?_digit : ∀ n < 16, value? (digit n) = some n := by
  decide

def number? (base : Nat) (digits : List Char) : Option Nat :=
  digits.foldlM (fun n c => (value? c).bind fun d => if d < base then some (n * base + d) else none)
    0

def bytes? : List Char → Option (List UInt8)
  | [] => some []
  | [_] => none
  | a :: b :: rest => do
    let high ← value? a
    let low ← value? b
    return UInt8.ofNat (16 * high + low) :: (← bytes? rest)

end LedgerFeed.Hex
