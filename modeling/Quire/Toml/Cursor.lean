import Quire.Text.Basic

/-!
Reading a text from its front while counting the characters that were read, so that whatever is
read can say where it stood.
-/

namespace Quire.Toml

/-- The rest of a text, and how many characters stand before it. -/
structure Cursor where
  pos : Nat
  rest : Text

/-- A stretch of characters: where it starts, and where what follows it starts. -/
structure Span where
  start : Nat
  stop : Nat
deriving DecidableEq

/-- Something that reads from the front of a text, or finds that the text has another form. -/
abbrev Reader := StateT Cursor Option

namespace Reader

/-- The character that comes next. -/
def peek? : Reader (Option Char) := fun c => some (c.rest.head?, c)

/-- How many characters were read. -/
def position : Reader Nat := fun c => some (c.pos, c)

/-- How many characters are left, at most which many steps of any reader lead to the end. -/
def left : Reader Nat := fun c => some (c.rest.length, c)

/-- Reads with a function from a text to what it reads and the rest. -/
def ofText (read : Text → Option (α × Text)) : Reader α := fun c =>
  (read c.rest).map fun (a, rest) => (a, ⟨c.pos + (c.rest.length - rest.length), rest⟩)

/-- Reads the given text. -/
def literal (t : Text) : Reader Unit :=
  ofText fun rest => (t.isPrefixOf? rest).map fun after => ((), after)

/-- Reads the given text if it is there, and says whether it was. -/
def skip (t : Text) : Reader Bool :=
  ofText fun rest =>
    match t.isPrefixOf? rest with
    | some after => some (true, after)
    | none => some (false, rest)

/-- Reads all characters of a class. -/
def many (p : Char → Bool) : Reader Text :=
  ofText fun rest => some (rest.takeWhile p, rest.dropWhile p)

/-- Reads with another reader and says where what it read stands. -/
def spanned (read : Reader α) : Reader (α × Span) := do
  let start ← position
  let a ← read
  return (a, ⟨start, ← position⟩)

end Reader

/-- A space or a tab. -/
def isGap (c : Char) : Bool := c = ' ' || c = '\t'

/-- A character that may stand in comments and strings without an escape: no control character but
the tab. -/
def isPlain (c : Char) : Bool := c = '\t' || (0x20 ≤ c.toNat && c.toNat ≠ 0x7f)

/-- What follows the newline, with or without a carriage return, that a text starts with. -/
def afterNewline? : Text → Option Text
  | '\n' :: rest => some rest
  | '\r' :: '\n' :: rest => some rest
  | _ => none

/-- What follows the comment that a text starts with, if it starts with one. -/
def afterComment : Text → Text
  | '#' :: rest => rest.dropWhile isPlain
  | t => t

/-- Reads spaces and tabs. -/
def gap : Reader Unit := discard (Reader.many isGap)

/-- Reads the end of a line: gaps, a comment, and a newline unless the text ends. -/
def lineEnd : Reader Unit :=
  Reader.ofText fun t =>
    match afterComment (t.dropWhile isGap) with
    | [] => some ((), [])
    | rest => (afterNewline? rest).map fun after => ((), after)

/-- What follows gaps, comments and newlines. -/
def afterBlank : (steps : Nat) → Text → Text
  | 0, t => t
  | n + 1, t =>
    let rest := afterComment (t.dropWhile isGap)
    match afterNewline? rest with
    | some after => afterBlank n after
    | none => rest

/-- Reads gaps, comments and newlines. -/
def blank : Reader Unit := Reader.ofText fun t => some ((), afterBlank t.length t)

end Quire.Toml
