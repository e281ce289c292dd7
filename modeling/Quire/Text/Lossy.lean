import Quire.Text.Basic

/-!
Reading bytes as UTF-8 whatever they are. A stretch that starts a character and cannot be
completed becomes one replacement character, and the byte that broke it is read afresh.
-/

namespace Quire.Text

/-- What stands for bytes that spell nothing. -/
def replacement : Char := '\ufffd'

/-- Where a reader stands in a character of several bytes: how many bytes are missing, the value so
far, and the bounds of the byte that must come next. -/
structure Partial where
  missing : Nat
  value : Nat
  least : Nat
  most : Nat
deriving DecidableEq

/-- What the first byte of a character announces. A byte that begins none announces nothing. -/
def Partial.ofFirst? (b : Nat) : Option Partial :=
  if 0xc2 ≤ b ∧ b ≤ 0xdf then some ⟨1, b - 0xc0, 0x80, 0xbf⟩
  else if b = 0xe0 then some ⟨2, 0, 0xa0, 0xbf⟩
  else if b = 0xed then some ⟨2, 0xd, 0x80, 0x9f⟩
  else if 0xe1 ≤ b ∧ b ≤ 0xef then some ⟨2, b - 0xe0, 0x80, 0xbf⟩
  else if b = 0xf0 then some ⟨3, 0, 0x90, 0xbf⟩
  else if b = 0xf4 then some ⟨3, 4, 0x80, 0x8f⟩
  else if 0xf1 ≤ b ∧ b ≤ 0xf3 then some ⟨3, b - 0xf0, 0x80, 0xbf⟩
  else none

/-- What the first byte of a character gives at once, and what it leaves open. -/
def firstByte (b : Nat) : Text × Option Partial :=
  if b < 0x80 then ([Char.ofNat b], none)
  else
    match Partial.ofFirst? b with
    | some p => ([], some p)
    | none => ([replacement], none)

/-- What one more byte gives, and what it leaves open. -/
def nextByte : Option Partial → Nat → Text × Option Partial
  | none, b => firstByte b
  | some p, b =>
    if p.least ≤ b ∧ b ≤ p.most then
      let value := p.value * 64 + (b - 0x80)
      if p.missing = 1 then ([Char.ofNat value], none)
      else ([], some ⟨p.missing - 1, value, 0x80, 0xbf⟩)
    else (replacement :: (firstByte b).1, (firstByte b).2)

/-- The characters of the bytes, from where the reader stands. -/
def readBytes : Option Partial → List UInt8 → Text
  | none, [] => []
  | some _, [] => [replacement]
  | p, b :: rest => (nextByte p b.toNat).1 ++ readBytes (nextByte p b.toNat).2 rest

/-- The text that the bytes spell, with a replacement character wherever they spell none. -/
def ofBytesLossy (bytes : ByteArray) : Text := readBytes none bytes.data.toList

/-- A name of a file as it is shown: what its bytes spell. -/
def shown (name : Text) : Text := ofBytesLossy name.toBytes

example : readBytes none [0xf0, 0x9f, 0x98, 0x80, 0x0a, 0x80] = "😀\n\ufffd".toList := by decide
example : readBytes none [0xe2, 0x82, 0x41, 0xc3] = "\ufffdA\ufffd".toList := by decide

end Quire.Text
