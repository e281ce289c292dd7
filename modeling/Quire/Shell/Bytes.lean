import Quire.Path.Basic
import Quire.Text.Lossy

/-!
Texts as a shell sees them. A shell knows nothing of characters that take several bytes: each byte
counts as one, so inside a shell a text is spread into its bytes, and gathered again where it
leaves.
-/

namespace Quire.Shell

/-- The bytes of a text, each as the character of its number. -/
def spread (t : Text) : Text := t.toBytes.data.toList.map fun b => Char.ofNat b.toNat

/-- The bytes of stored data, each as the character of its number. -/
def spreadBytes (bytes : ByteArray) : Text := bytes.data.toList.map fun b => Char.ofNat b.toNat

/-- The bytes that a spread text stands for. -/
def gather (t : Text) : ByteArray := ⟨(t.map fun c => c.toNat.toUInt8).toArray⟩

/-- The path that a spread text spells. -/
def pathOf (t : Text) : Path := ⟨Text.ofBytesLossy (gather t)⟩

/-- A word of plain characters, as a text. -/
def lit (s : String) : Text := s.toList

/-- A blank between words of a command line. -/
def isBlank (c : Char) : Bool := c = ' ' || c = '\t'

/-- A character that a name may begin with. -/
def beginsName (c : Char) : Bool := c.isAlpha || c = '_'

/-- A character that a name may go on with. -/
def isInName (c : Char) : Bool := beginsName c || c.isDigit

/-- Whether a text is a name. -/
def isName (t : Text) : Bool := t.head?.any beginsName && t.all isInName

/-- The number that decimal digits spell. -/
def digits? (t : Text) : Option Nat :=
  if t ≠ [] ∧ t.all Char.isDigit then
    some (t.foldl (fun n c => 10 * n + (c.toNat - '0'.toNat)) 0)
  else none

/-- Joins texts with a blank between each two. -/
def joinBlank (ts : List Text) : Text := [' '].intercalate ts

/-- A text between single quotes, as a shell reads it back. Quotes inside are put between double
ones. -/
def inQuotes (t : Text) : Text := pieces (' ' :: t) t
where
  /-- The quoted pieces of a text. -/
  pieces : (steps : Text) → Text → Text
    | [], _ => []
    | _ :: steps, t =>
      let plain := t.takeWhile (· ≠ '\'')
      let rest := t.drop plain.length
      let quotes := rest.takeWhile (· = '\'')
      let after := rest.drop quotes.length
      let here := '\'' :: plain ++ ['\'']
      if quotes = [] then here
      else
        let here := here ++ '"' :: quotes ++ ['"']
        if after = [] then here else here ++ pieces steps after

end Quire.Shell
