import Quire.Script.Expr

/-!
Reading a script token by token. A reader that cannot go on fails; a reader that finds something
forbidden goes on and remembers it, so that what was tried in vain leaves nothing behind.
-/

namespace Quire.Script

/-- What is allowed where a reader stands. -/
structure Setting where
  /-- Whether `in` is an operator. -/
  joins : Bool := true
  awaits : Bool := true
  yields : Bool := false
  returns : Bool := false
  /-- Whether a decorator is being read. -/
  decorates : Bool := false

/-- Where a reader stands: the token before it, what follows the token, what is allowed, whether
something forbidden was passed, how many initial values of fields no pattern has taken yet, and the
names that were exported. -/
structure Reader where
  token : Token
  rest : Text
  setting : Setting := {}
  faulty : Bool := false
  initials : Nat := 0
  exported : List Text := []

/-- What is read in one go. -/
abbrev Reads := StateT Reader Option

/-- What can be asked for wherever the grammar comes back to itself. -/
inductive Goal
  | expression
  | assignment
  /-- Operands joined by operators that bind closer than the given rank. -/
  | joined (rank : Nat)
  | unary
  /-- A call, a part of something, or something simpler. -/
  | place
  /-- What follows a `new`. -/
  | made
  /-- What a declaration binds. -/
  | pattern
  /-- A statement; one that stands alone may declare nothing that lives in a block. -/
  | statement (alone : Bool)
deriving DecidableEq

/-- The grammar as it is known to its own rules. -/
abbrev Rules := Goal → Reads Expr

/-- The words that name nothing. -/
def reservedWords : List Text :=
  ["await", "break", "case", "catch", "class", "const", "continue", "debugger", "default", "delete",
    "do", "else", "enum", "export", "extends", "false", "finally", "for", "function", "if",
    "import", "in", "instanceof", "new", "null", "return", "super", "switch", "this", "throw",
    "true", "try", "typeof", "var", "void", "while", "with", "yield"].map String.toList

/-- The words that may not be exported as they are, beside the reserved ones. -/
def keptWords : List Text :=
  ["implements", "interface", "let", "package", "private", "protected", "public", "static"].map
    String.toList

/-- Whether a word may name something. Two of the reserved words may do so in some places. -/
def isNaming (t : Text) : Bool :=
  !reservedWords.contains t || t = "await".toList || t = "yield".toList

namespace Lexeme

/-- Whether a lexeme is the given mark. -/
def isMark (l : Lexeme) (m : String) : Bool := l = .mark m.toList

/-- Whether a lexeme is the given word. -/
def isWord (l : Lexeme) (w : String) : Bool :=
  match l with
  | .word t _ => t = w.toList
  | _ => false

/-- Whether a lexeme is a word that may name something. -/
def isNaming (l : Lexeme) : Bool :=
  match l with
  | .word t _ => Script.isNaming t
  | _ => false

/-- Whether a lexeme can be the beginning of a field's name, or of what stands in its place. -/
def beginsField (l : Lexeme) : Bool :=
  match l with
  | .word _ _ => true
  | .hidden _ => true
  | .text _ _ => true
  | .number => true
  | _ => l.isMark "[" || l.isMark "\x7b" || l.isMark "*" || l.isMark "..."

/-- Whether a lexeme is a stretch of a template. -/
def isTemplate (l : Lexeme) : Bool :=
  match l with
  | .template _ _ => true
  | _ => false

end Lexeme

namespace Reads

/-- The lexeme that comes next. -/
def next : Reads Lexeme := return (← get).token.lexeme

/-- Whether a mark comes next. -/
def atMark (m : String) : Reads Bool := return (← next).isMark m

/-- Whether a word comes next. -/
def atWord (w : String) : Reads Bool := return (← next).isWord w

/-- Whether the next token begins a line. -/
def onNewLine : Reads Bool := return (← get).token.onNewLine

/-- Passes by a token. -/
def advance : Reads Unit :=
  modify fun r => { r with token := (token r.rest).1, rest := (token r.rest).2 }

/-- Remembers that something forbidden was passed. -/
def fault : Reads Unit := modify fun r => { r with faulty := true }

/-- Passes by a token that has a meaning of its own, which has to be written plainly. -/
def take : Reads Unit := do
  if let .word _ true ← next then fault
  advance

/-- Passes by a mark if it comes next. -/
def eatMark (m : String) : Reads Bool := do
  if ← atMark m then
    advance
    return true
  else return false

/-- Passes by a word if it comes next. -/
def eatWord (w : String) : Reads Bool := do
  if ← atWord w then
    take
    return true
  else return false

/-- Passes by a mark, which has to come next. -/
def expectMark (m : String) : Reads Unit := do
  unless ← eatMark m do failure

/-- Passes by a word, which has to come next. -/
def expectWord (w : String) : Reads Unit := do
  unless ← eatWord w do failure

/-- What would be read from here, without moving. -/
def glance (reads : Reads α) : Reads (Option α) := fun r => some ((reads r).map (·.1), r)

/-- Asks a question about what lies ahead, without moving. -/
def ahead (ask : Reads Bool) : Reads Bool := return (← glance ask).getD false

/-- Tries to read something; if that fails, nothing has happened. -/
def attempt (reads : Reads α) : Reads (Option α) := fun r =>
  match reads r with
  | some (a, after) => some (some a, after)
  | none => some (none, r)

/-- Reads something in another setting. -/
def within (change : Setting → Setting) (reads : Reads α) : Reads α := do
  let before := (← get).setting
  modify fun r => { r with setting := change before }
  let a ← reads
  modify fun r => { r with setting := before }
  return a

/-- Reads something where `in` is an operator. -/
def joining (reads : Reads α) : Reads α := within (fun s => { s with joins := true }) reads

/-- Repeats a step as long as it says so, at most as often as a text is long. -/
def repeated (step : σ → Reads (σ × Bool)) : (times : Text) → σ → Reads σ
  | [], _ => failure
  | _ :: n, s => do
    let (s, more) ← step s
    if more then repeated step n s else return s

/-- Repeats a step as long as it says so. Each step but the last one passes by a token, so that
there are no more of them than the text ahead allows. -/
def loop (step : σ → Reads (σ × Bool)) (s : σ) : Reads σ := do
  repeated step (' ' :: ' ' :: (← get).rest) s

/-- Refuses the words that a setting keeps for itself. -/
def checkName (t : Text) : Reads Unit := do
  let s := (← get).setting
  if (s.awaits ∧ t = "await".toList) ∨ (s.yields ∧ t = "yield".toList) then fault

/-- A word that names something. -/
def naming : Reads Text := do
  let .word t _ ← next | failure
  unless isNaming t do failure
  checkName t
  advance
  return t

/-- Any word. -/
def anyWord : Reads Text := do
  let .word t _ ← next | failure
  advance
  return t

/-- A string. -/
def string : Reads Text := do
  let .text t _ ← next | failure
  advance
  return t

/-- Whether a statement may end here without a semicolon. -/
def mayEnd : Reads Bool := do
  let t := (← get).token
  return t.onNewLine || t.lexeme.isMark ";" || t.lexeme.isMark "\x7d" || t.lexeme = .finish

/-- The end of a statement. -/
def endOfStatement : Reads Unit := do
  unless ← mayEnd do failure
  discard (eatMark ";")

/-- Items between commas up to a closing mark, which is left, and whether a comma came last. -/
def listed (close : String) (item : Reads Expr) : Reads (List Expr × Bool) := do
  if ← atMark close then return ([], false)
  let first ← item
  let (items, trailing) ← loop (fun (items, _) => do
    if ← atMark close then return ((items, false), false)
    expectMark ","
    if ← atMark close then return ((items, true), false)
    return (((← item) :: items, false), true)) ([first], false)
  return (items.reverse, trailing)

/-- The same where one item may take the rest. It has to come last, without a comma behind it. -/
def listedWithRest (close : String) (item rest : Reads Expr) : Reads (List Expr × Option Expr) := do
  let one (items : List Expr) (found : Option Expr) : Reads ((List Expr × Option Expr) × Bool) := do
    if found.isSome then fault
    if ← eatMark "..." then return ((items, some (← rest)), true)
    else return (((← item) :: items, found), true)
  let (items, found) ← loop (fun (items, found, begun) => do
    if ← atMark close then return ((items, found, begun), false)
    if begun then
      expectMark ","
      if ← atMark close then
        if found.isSome then fault
        return ((items, found, begun), false)
    let ((items, found), more) ← one items found
    return ((items, found, true), more)) (([] : List Expr), (none : Option Expr), false)
    >>= fun (items, found, _) => pure (items, found)
  return (items.reverse, found)

/-- Reads an expression again as what is stored to. -/
def asTarget (plain : Bool) (e : Expr) : Reads Unit := do
  match if plain then e.initials else e.single with
  | some n => modify fun r => { r with initials := r.initials - n }
  | none => failure

/-- Records a name as exported. -/
def exports (name : Text) : Reads Unit := modify fun r => { r with exported := name :: r.exported }

end Reads

end Quire.Script
