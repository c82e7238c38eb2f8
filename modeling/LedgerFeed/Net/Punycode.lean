/-! Punycode: text beyond ASCII in the letters, figures and hyphens of a domain label. The ASCII
characters come first, then after a hyphen the numbers that say which others go in, and where. -/

namespace LedgerFeed.Net.Punycode

def digit? (c : Char) : Option Nat :=
  if c.isLower then some (c.toNat - 97)
  else if c.isUpper then some (c.toNat - 65)
  else if c.isDigit then some (c.toNat - 22)
  else none

def threshold (bias place : Nat) : Nat :=
  min 26 (max 1 (36 * (place + 1) - bias))

def biasOf (places delta : Nat) : Nat :=
  if 455 < delta then biasOf (places + 36) (delta / 35)
  else places + 36 * delta / (delta + 38)
termination_by delta

def adapt (first : Bool) (delta length : Nat) : Nat :=
  let damped := if first then delta / 700 else delta / 2
  biasOf 0 (damped + damped / length)

structure State where
  text : List Char
  code : Nat
  position : Nat
  bias : Nat
  place : Nat
  weight : Nat
  delta : Nat

def State.initial (ascii : List Char) : State :=
  ⟨ascii, 128, 0, 72, 0, 1, 0⟩

def State.insert (s : State) (delta : Nat) : Option State :=
  let length := s.text.length + 1
  let code := s.code + (s.position + delta) / length
  let position := (s.position + delta) % length
  if code < 0xD800 ∨ (0xE000 ≤ code ∧ code < 0x110000) then
    some
      { text := s.text.insertIdx position (Char.ofNat code)
        code
        position := position + 1
        bias := adapt (s.position = 0) delta length
        place := 0
        weight := 1
        delta := 0 }
  else none

def State.step (s : State) (c : Char) : Option State := do
  let digit ← digit? c
  let delta := s.delta + digit * s.weight
  let t := threshold s.bias s.place
  if digit < t then s.insert delta
  else some { s with place := s.place + 1, weight := s.weight * (36 - t), delta }

def decode? (label : List Char) : Option (List Char) := do
  let digits := (label.reverse.takeWhile (· ≠ '-')).reverse
  let ascii := label.take (label.length - digits.length - 1)
  if ascii = [] ∧ label.contains '-' then none
  let s ← digits.foldlM State.step (.initial ascii)
  if s.place = 0 then some s.text else none

example : (decode? "mnchen-3ya".toList).map String.ofList = some "münchen" := by decide +kernel

end LedgerFeed.Net.Punycode
