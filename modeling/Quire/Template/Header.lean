import Quire.Template.Fault
import Quire.Text.Blank

/-!
The header of a template: import lines between two fences. A template has a header only when its
first line that is not blank is a fence; otherwise all of it is body.
-/

namespace Quire.Template

/-- A component under the name it is imported by, with the path as declared. -/
structure Import where
  name : Text
  path : Text
deriving DecidableEq

/-- The line that opens and closes a header. -/
def fence : Text := ['-', '-', '-']

/-- A space or a tab, the only blanks inside an import line. -/
def isGap (c : Char) : Bool := c = ' ' || c = '\t'

/-- A character that a component name may go on with. -/
def isNameChar (c : Char) : Bool := c.isAlphanum || c = '_'

/-- What follows at least one gap. -/
def afterGap? : Text → Option Text
  | c :: rest => if isGap c then some (rest.dropWhile isGap) else none
  | [] => none

/-- What may follow the closing quote of an import: gaps, then at most one semicolon. -/
def isImportEnd (t : Text) : Bool :=
  let rest := t.dropWhile isGap
  rest = [] || rest = [';']

/-- Reads `import Name from "path"`. The name begins with a capital letter, the path is not
empty, and a semicolon may follow. -/
def Import.ofLine? (line : Text) : Option Import := do
  let rest ← "import".toList.isPrefixOf? line
  let rest ← afterGap? rest
  let name := rest.takeWhile isNameChar
  guard (name.head?.any Char.isUpper)
  let rest ← afterGap? (rest.dropWhile isNameChar)
  let rest ← "from".toList.isPrefixOf? rest
  let rest ← afterGap? rest
  let rest ← ['"'].isPrefixOf? rest
  let (path, rest) ← Text.cutFirst ['"'] rest
  guard (path ≠ [] ∧ isImportEnd rest)
  return ⟨name, path⟩

/-- A template cut in two: its imports, its body, and the line on which the body starts. -/
structure Parts where
  imports : List Import
  body : Text
  bodyLine : Nat
deriving DecidableEq

/-- Reads the lines after the opening fence up to the closing one. `opening` is the line of the
opening fence and `line` that of the next line; `seen` holds the imports so far. -/
def importLines (opening line : Nat) (seen : List Import) :
    List Text → Except Fault Parts
  | [] => .error ⟨opening, .unterminatedHeader⟩
  | l :: rest =>
    let t := l.trim
    if t = fence then .ok ⟨seen, rest.flatten, line + 1⟩
    else if t = [] then importLines opening (line + 1) seen rest
    else
      match Import.ofLine? t with
      | none => .error ⟨line, .malformedImport t⟩
      | some i =>
        if seen.any (·.name = i.name) then .error ⟨line, .duplicateImport i.name⟩
        else importLines opening (line + 1) (seen ++ [i]) rest

/-- Looks for the opening fence, which only blank lines may precede; `line` is the number of the
first line. Where there is none, nothing is read and the answer is empty. -/
def openHeader? (line : Nat) : List Text → Option (Except Fault Parts)
  | [] => none
  | l :: rest =>
    if l.trim = [] then openHeader? (line + 1) rest
    else if l.trim = fence then some (importLines line (line + 1) [] rest)
    else none

/-- Cuts the header off. -/
def splitHeader (source : Text) : Except Fault Parts :=
  (openHeader? 1 source.wholeLines).getD (.ok ⟨[], source, 1⟩)

end Quire.Template
