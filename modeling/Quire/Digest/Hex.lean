import Quire.Text.Quoted

/-!
Bytes written in hexadecimal, two lower-case digits each, and read back.
-/

namespace Quire.Digest

/-- Two digits for every byte, the high one first. -/
def hexText (bytes : List UInt8) : Text :=
  bytes.flatMap fun b => [Text.hexDigit (b.toNat / 16), Text.hexDigit (b.toNat % 16)]

/-- The value of a hexadecimal digit of either case. -/
def hexValue? (c : Char) : Option Nat :=
  if '0' ≤ c ∧ c ≤ '9' then some (c.toNat - '0'.toNat)
  else if 'a' ≤ c ∧ c ≤ 'f' then some (c.toNat - 'a'.toNat + 10)
  else if 'A' ≤ c ∧ c ≤ 'F' then some (c.toNat - 'A'.toNat + 10)
  else none

/-- The bytes that the digits spell, if every one has two. -/
def ofHexText? : Text → Option (List UInt8)
  | [] => some []
  | [_] => none
  | a :: b :: rest => do
    let high ← hexValue? a
    let low ← hexValue? b
    let bytes ← ofHexText? rest
    return (16 * high + low).toUInt8 :: bytes

example : ofHexText? (hexText [0, 9, 0xa7, 255]) = some [0, 9, 0xa7, 255] := by decide

end Quire.Digest
