import Quire.Text.Quoted

/-!
The interchange notation: JSON in which a node may also be a piece of script, written as it is.
Every nesting level is indented by two spaces, and fields keep their order.
-/

namespace Quire.Interchange

/-- One node of the notation. -/
inductive Value
  | str (t : Text)
  | raw (code : Text)
  | array (items : List Value)
  | object (fields : List (Text × Value))

/-- The blanks in front of a node at the given depth. -/
def indent (depth : Nat) : Text := List.replicate (2 * depth) ' '

/-- What follows an item: a comma unless it is the last, and the end of the line. -/
def separator (isLast : Bool) : Text := if isLast then ['\n'] else [',', '\n']

mutual

/-- A node as it stands at the given depth. -/
def Value.write (depth : Nat) : Value → Text
  | .str t => Text.quoted t
  | .raw code => code
  | .array items =>
    if items.isEmpty then ['[', ']']
    else '[' :: '\n' :: (writeItems (depth + 1) items ++ indent depth ++ [']'])
  | .object fields =>
    if fields.isEmpty then ['{', '}']
    else '{' :: '\n' :: (writeFields (depth + 1) fields ++ indent depth ++ ['}'])

/-- The items of an array, each on a line of its own. -/
def writeItems (depth : Nat) : List Value → Text
  | [] => []
  | item :: rest =>
    indent depth ++ item.write depth ++ separator rest.isEmpty ++ writeItems depth rest

/-- The fields of an object, each on a line of its own. -/
def writeFields (depth : Nat) : List (Text × Value) → Text
  | [] => []
  | (key, value) :: rest =>
    indent depth ++ Text.quoted key ++ [':', ' '] ++ value.write depth ++ separator rest.isEmpty ++
      writeFields depth rest

end

/-- The notation of a whole tree. -/
def Value.render (v : Value) : Text := v.write 0

example : (Value.array [.object [(['a'], .str ['b'])], .raw ['c']]).render =
    "[\n  \x7b\n    \"a\": \"b\"\n  \x7d,\n  c\n]".toList := by decide

end Quire.Interchange
