import Quire.Shell.Bytes

/-!
Commands: what the text of a shell script means. A word keeps how it is quoted and what is to be put
into it; everything else is a tree.
-/

namespace Quire.Shell

/-- What is done with the value of a parameter. -/
inductive Use
  | value
  /-- Another word stands in where there is no value. -/
  | orElse
  /-- The same, and the parameter gets that value. -/
  | assign
  /-- It is wrong if there is no value. -/
  | demand
  /-- Another word stands in where there is a value. -/
  | andThen
  | length
  /-- A part that looks like a word is cut off: at the end or at the beginning, as much or as little
  as possible. -/
  | cut (atEnd longest : Bool)
  /-- Nothing that is known. -/
  | unknown
deriving DecidableEq

/-- How a file is opened. -/
inductive Access
  | input
  | output
  /-- Output that may replace what is there in any case. -/
  | clobber
  | append
  | both
deriving DecidableEq

mutual

/-- A part of a word. Apart from marks it is quoted or not. -/
inductive Part
  | text (t : Text) (quoted : Bool)
  /-- A quotation mark. It stands for nothing, but a word with one is never left out. -/
  | mark
  /-- A parameter. Where `orNull` holds, an empty value counts as none. -/
  | parameter (name : Text) (use : Use) (orNull : Bool) (word : List Part) (quoted : Bool)
  /-- What a command writes. -/
  | written (command : Option Command) (quoted : Bool)
  /-- The value of an arithmetic expression. -/
  | sum (expression : List Part) (quoted : Bool)

/-- Where a stream comes from or goes to. -/
inductive Redirection
  | file (stream : Nat) (access : Access) (path : List Part)
  /-- To where another stream goes. -/
  | copy (stream : Nat) (source : List Part)
  /-- From a text in the script itself, by its number. -/
  | here (stream number : Nat)

/-- A command. Where it says so, a command knows the line that it begins in. -/
inductive Command
  | simple (line : Nat) (assigned words : List (List Part)) (streams : List Redirection)
  /-- Each command reads what the one before writes. -/
  | pipeline (stages : List Command) (detached : Bool)
  | redirected (line : Nat) (inner : Command) (streams : List Redirection)
  /-- A command that is not waited for. -/
  | detached (inner : Command) (streams : List Redirection)
  /-- A command whose changes of the shell are forgotten. -/
  | separate (line : Nat) (inner : Command) (streams : List Redirection)
  | both (first second : Command)
  | either (first second : Command)
  | sequence (first second : Command)
  | negation (inner : Command)
  | choice (test yes : Command) (no : Option Command)
  /-- A command that is repeated as long as another one succeeds, or fails. -/
  | loop (whileFails : Bool) (test body : Command)
  | each (line : Nat) (name : Text) (items : List (List Part)) (body : Command)
  | select (line : Nat) (word : List Part)
      (clauses : List (List (List Part) × Option Command))
  | function (name : Text) (body : Command)

end

/-- A word. -/
abbrev Word := List Part

/-- What stands in the script for a stream: the lines, and what they are made of. -/
abbrev HereTexts := List (Nat × Word)

/-- The text of a word in which nothing is quoted or put in. -/
def Part.plainText? : Word → Option Text
  | [] => some []
  | .text t false :: rest => (plainText? rest).map (t ++ ·)
  | _ => none

/-- The name that a word assigns to, if it is an assignment, and the value. -/
def Part.assignment? : Word → Option (Text × Word)
  | .text t false :: rest => do
    let (name, value) ← Text.cutFirst ['='] t
    if isName name then return (name, if value = [] then rest else .text value false :: rest)
    else none
  | _ => none

end Quire.Shell
