import LedgerFeed.Text.Hex

/-! Random identifiers in the usual five groups of hexadecimal digits. -/

namespace LedgerFeed.Uuid

def byteDigits (byte : UInt8) : List Char :=
  [Hex.digit (byte.toNat / 16), Hex.digit (byte.toNat % 16)]

def groups : List Nat → List UInt8 → List Char
  | [], _ => []
  | [size], bytes => (bytes.take size).flatMap byteDigits
  | size :: sizes, bytes =>
    (bytes.take size).flatMap byteDigits ++ '-' :: groups sizes (bytes.drop size)

/-- The identifier of sixteen random bytes. Its seventh byte says that it is random, and its ninth
which layout it has. -/
def ofRandom (bytes : List UInt8) : String :=
  let marked :=
    bytes.modify 6 (fun b => b &&& 0x0F ||| 0x40) |>.modify 8 (fun b => b &&& 0x3F ||| 0x80)
  String.ofList (groups [4, 2, 2, 2, 6] marked)

example : ofRandom (List.replicate 16 0xFF) = "ffffffff-ffff-4fff-bfff-ffffffffffff" := by
  decide +kernel

end LedgerFeed.Uuid
