import Quire.Text.Basic

/-!
Quoted text: the string notation that JSON and scripts share. A quote, a backslash and every
control character below the space are written with a backslash, all else as it is.
-/

namespace Quire.Text

/-- The hexadecimal digit, in lower case, of a number below sixteen. -/
def hexDigit (n : Nat) : Char := Nat.digitChar n

/-- How one character is written between the quotes. -/
def escape (c : Char) : Text :=
  if c = '"' then ['\\', '"']
  else if c = '\\' then ['\\', '\\']
  else if c = '\x08' then ['\\', 'b']
  else if c = '\x0c' then ['\\', 'f']
  else if c = '\n' then ['\\', 'n']
  else if c = '\r' then ['\\', 'r']
  else if c = '\t' then ['\\', 't']
  else if c.toNat < 0x20 then
    ['\\', 'u', '0', '0', hexDigit (c.toNat / 16), hexDigit (c.toNat % 16)]
  else [c]

/-- The text between quotes. -/
def quoted (t : Text) : Text := '"' :: (t.flatMap escape ++ ['"'])

example : quoted "a\"\n\x01é".toList = "\"a\\\"\\n\\u0001é\"".toList := by decide

end Quire.Text
