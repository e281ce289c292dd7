import Quire.Shell.Command

/-!
The text of a shell script while it is read: characters, tokens, the line, and the texts that stand
in the script for streams and come with the next end of a line.
-/

namespace Quire.Shell

/-- What a script is made of. -/
inductive Token
  | ending
  | newline
  | semicolon
  | detach
  | both
  | either
  | pipe
  | opening
  | closing
  | clauseEnd
  | word (w : Word) (quoted : Bool)
  /-- A redirection of a stream, by its sign. -/
  | redirection (stream : Option Nat) (sign : Text)
  /-- A word that the grammar knows. -/
  | keyword (t : Text)

/-- The name of a token in a complaint. -/
def Token.name : Token → Text
  | .ending => lit "end of file"
  | .newline => lit "newline"
  | .semicolon => lit "\";\""
  | .detach => lit "\"&\""
  | .both => lit "\"&&\""
  | .either => lit "\"||\""
  | .pipe => lit "\"|\""
  | .opening => lit "\"(\""
  | .closing => lit "\")\""
  | .clauseEnd => lit "\";;\""
  | .word .. => lit "word"
  | .redirection .. => lit "redirection"
  | .keyword t => ['"'] ++ t ++ ['"']

/-- Why a script cannot be read. -/
inductive Misreading
  | unexpected (found : Token) (wanted : Option Token)
  | badLoopName
  | badFunctionName
  | badStream
  | openQuote
  | openBrace
  | openSum
  | openBackquote
  /-- The script is nested too deep. -/
  | tooDeep

/-- The wording of a complaint about a script. -/
def Misreading.message : Misreading → Text
  | .unexpected found none => found.name ++ lit " unexpected"
  | .unexpected found (some wanted) =>
    found.name ++ lit " unexpected (expecting " ++ wanted.name ++ [')']
  | .badLoopName => lit "Bad for loop variable"
  | .badFunctionName => lit "Bad function name"
  | .badStream => lit "Bad fd number"
  | .openQuote => lit "Unterminated quoted string"
  | .openBrace => lit "Missing '\x7d'"
  | .openSum => lit "Missing '))'"
  | .openBackquote => lit "EOF in backquote substitution"
  | .tooDeep => lit "nested too deep"

/-- A text that stands in the script for a stream and is still to come: its number, the line that
ends it, whether tabs at the beginnings of lines are dropped, and whether parameters are put in. -/
structure Awaited where
  number : Nat
  ending : Text
  dropsTabs : Bool
  expands : Bool

/-- A script while it is read. -/
structure Source where
  rest : Text
  line : Nat := 1
  /-- A token that was read and put back. -/
  putBack : Option Token := none
  awaited : List Awaited := []
  heres : HereTexts := []
  /-- Other words for commands, and how much of the script is left behind those that were put in. -/
  aliases : List (Text × Text) := []
  putIn : List (Text × Nat) := []

/-- Why reading stops: the complaint and the line that it is about. -/
structure Complaint where
  line : Nat
  why : Misreading

/-- Reading a script. -/
abbrev Reads := StateT Source (Except Complaint)

namespace Reads

/-- Stops with a complaint. -/
def refuse (why : Misreading) : Reads α := do throw ⟨(← get).line, why⟩

/-- Passes by line ends behind backslashes. -/
def joinLines : Reads Unit := modify fun s => { s with
    rest := (joined s.rest 0).1, line := s.line + (joined s.rest 0).2 }
where
  /-- A text behind the line ends it begins with that are behind backslashes, and their count. -/
  joined : Text → Nat → Text × Nat
    | '\\' :: '\n' :: rest, n => joined rest (n + 1)
    | t, n => (t, n)

/-- The next character. It is passed by, and counted if it ends a line. -/
def take? : Reads (Option Char) := do
  let s ← get
  match s.rest with
  | [] => return none
  | c :: rest =>
    set { s with rest, line := if c = '\n' then s.line + 1 else s.line }
    return some c

/-- The next character behind joined lines, which stays. -/
def peek? : Reads (Option Char) := do
  joinLines
  return (← get).rest.head?

/-- The next character behind joined lines. -/
def next? : Reads (Option Char) := do
  joinLines
  take?

/-- Passes by a character if it comes next. -/
def eat (c : Char) : Reads Bool := do
  if (← peek?) = some c then
    discard take?
    return true
  else return false

/-- Passes by the characters of a class. -/
def takeWhile (isIn : Char → Bool) : Reads Text := do
  let rec go : Text → Text → Reads Text
    | [], taken => return taken.reverse
    | _ :: steps, taken => do
      match ← peek? with
      | some c =>
        if isIn c then
          discard take?
          go steps (c :: taken)
        else return taken.reverse
      | none => return taken.reverse
  go (' ' :: (← get).rest) []

/-- Repeats a step as long as it says so, at most as often as a text is long. -/
def repeated (step : σ → Reads (σ × Bool)) : (times : Text) → σ → Reads σ
  | [], _ => refuse .tooDeep
  | _ :: n, s => do
    let (s, more) ← step s
    if more then repeated step n s else return s

/-- Repeats a step as long as it says so. There are no more steps than the script has characters,
but for the words that aliases put in. -/
def loop (step : σ → Reads (σ × Bool)) (s : σ) : Reads σ := do
  let source ← get
  let more := source.aliases.flatMap fun (_, t) => t
  repeated step (' ' :: ' ' :: ' ' :: source.rest ++ more) s

/-! Texts that stand in the script for streams. -/

/-- The lines up to one that ends a text, and what follows it. Where parameters are put in, the end
of a line behind a backslash is none. The lines are given in the reverse order. -/
def hereLines (a : Awaited) : List Text → List Text → List Text × List Text
  | lines, [] => (lines, [])
  | lines, l :: rest =>
    let l := if a.dropsTabs ∧ ¬ isContinued lines then l.dropWhile (· = '\t') else l
    if ¬ isContinued lines ∧ (l = a.ending ++ ['\n'] ∨ l = a.ending) then (lines, rest)
    else hereLines a (l :: lines) rest
where
  /-- Whether the last line goes on behind its end. -/
  isContinued (lines : List Text) : Bool :=
    a.expands && lines.head?.any fun l =>
      match l.reverse with
      | '\n' :: before => (before.takeWhile (· = '\\')).length % 2 = 1
      | _ => false

/-- Takes the lines of an awaited text out of the script. -/
def hereText (a : Awaited) : Reads Text := do
  let s ← get
  let (lines, rest) := hereLines a [] (Text.wholeLines s.rest)
  let taken := s.rest.length - rest.flatten.length
  let passed := ((s.rest.take taken).filter (· = '\n')).length
  set { s with rest := rest.flatten, line := s.line + passed }
  return lines.reverse.flatten

end Reads

end Quire.Shell
