import LedgerFeed.Json.Value

/-! JSON in bytes, which need not be UTF-8 throughout: a string that is passed over may hold any
bytes but those that end it. -/

namespace LedgerFeed.Json

/-- What is read in the place of a byte that belongs to no character. In a string this is a
surrogate without a partner, whatever stands before it, and it begins no other token. -/
def misfit : List Char :=
  ['x', '\\', 'u', 'd', 'c', '0', '0']

def decode (bytes : ByteArray) (i : Nat) : List Char :=
  if i < bytes.size then
    match bytes.utf8DecodeChar? i with
    | some c => c :: decode bytes (i + c.utf8Size)
    | none => misfit ++ decode bytes (i + 1)
  else []
termination_by bytes.size - i
decreasing_by
  · have := c.utf8Size_pos
    omega
  · omega

def ofBytes? (bytes : ByteArray) : Option Value := do
  ofTokens? (← tokens? (decode bytes 0))

theorem decode_utf8Encode (before : ByteArray) (cs : List Char) :
    decode (before ++ cs.utf8Encode) before.size = cs := by
  induction cs generalizing before with
  | nil => simp [decode]
  | cons c cs ih =>
    have hpos := c.utf8Size_pos
    have hchar : (before ++ (c :: cs).utf8Encode).utf8DecodeChar? before.size = some c := by
      rw [ByteArray.utf8DecodeChar?_eq_utf8DecodeChar?_extract,
        ByteArray.extract_append_eq_right rfl ByteArray.size_append,
        List.utf8DecodeChar?_utf8Encode_cons]
    have hsplit : before ++ (c :: cs).utf8Encode = before ++ [c].utf8Encode ++ cs.utf8Encode := by
      rw [ByteArray.append_assoc, ← List.utf8Encode_append, List.singleton_append]
    have hsize : (before ++ [c].utf8Encode).size = before.size + c.utf8Size := by
      simp [List.utf8Encode_singleton]
    have hlt : before.size < (before ++ (c :: cs).utf8Encode).size := by
      rw [hsplit, ByteArray.size_append, hsize]
      omega
    rw [decode, if_pos hlt, hchar]
    change c :: decode _ (before.size + c.utf8Size) = _
    rw [hsplit, ← hsize, ih]

theorem ofBytes?_toUTF8 (text : String) : ofBytes? text.toUTF8 = read? text := by
  have hdecode : decode text.toUTF8 0 = text.toList := by
    simpa using decode_utf8Encode .empty text.toList
  rw [ofBytes?, hdecode, read?]

end LedgerFeed.Json
