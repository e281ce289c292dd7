import Quire.Script.Grammar.Value

/-!
Statements, from the empty one to loops and declarations.
-/

namespace Quire.Script.Grammar

open Reads

/-! Declarations of variables. -/

/-- Where variables are declared: in a statement of their own, or at the head of a loop, which may
give them their values later. -/
structure Declared where
  patterns : List Expr
  /-- Whether one of them has to be given a value here, and is not. -/
  lacksValue : Bool

/-- Variables with their values. What never changes needs a value, and so does a pattern. -/
def declared (self : Rules) (isFixed : Bool) : Reads Declared := do
  let one : Reads (Expr × Bool) := do
    let e ← self .pattern
    if ← eatMark "=" then
      discard (self .assignment)
      return (e, false)
    else return (e, isFixed || !e.isName)
  let (first, lacks) ← one
  loop (fun d => do
    if ¬ (← eatMark ",") then return (d, false)
    let (e, lacks) ← one
    return (⟨d.patterns ++ [e], d.lacksValue || lacks⟩, true)) ⟨[first], lacks⟩

/-- A declaration of variables behind its word, with the names that it binds. -/
def declaration (self : Rules) (isFixed : Bool) : Reads (List Text) := do
  let d ← declared self isFixed
  if d.lacksValue then fault
  endOfStatement
  return Expr.namesOf d.patterns

/-! Simple statements. -/

/-- An expression that is a statement, or a label before one. -/
def expressionStatement (self : Rules) : Reads Unit := do
  let e ← self .expression
  if e.isName then
    if ← eatMark ":" then
      discard (self (.statement true))
      return
  endOfStatement

/-- What a statement with `let` is: a declaration, unless the word is meant as a name. -/
def letStatement (self : Rules) (alone : Bool) : Reads Unit := do
  let behind ← glance do
    advance
    next
  let behind := behind.getD .unknown
  let isOperator :=
    match behind with
    | .mark m => storeMarks.contains m
    | _ => false
  if isOperator || (rank? true behind).isSome || behind.isMark "." || behind.isMark "(" then
    discard (self .assignment)
    endOfStatement
  else if (alone && !behind.isMark "[") || behind.isMark ";" then
    discard naming
    endOfStatement
  else
    if alone then fault
    advance
    discard (declaration self false)

/-- A jump, perhaps to a label. -/
def jump : Reads Unit := do
  take
  if (← next).isNaming && !(← onNewLine) then discard naming
  endOfStatement

/-- A condition in parentheses. -/
def condition (self : Rules) : Reads Unit := do
  expectMark "("
  discard (joining (self .expression))
  expectMark ")"

/-- Leaves a function, perhaps with a value. -/
def returning (self : Rules) : Reads Unit := do
  take
  if ¬ (← get).setting.returns then fault
  if ¬ (← mayEnd) then discard (joining (self .expression))
  endOfStatement

/-- Stops with a value, which is on the same line. -/
def throwing (self : Rules) : Reads Unit := do
  take
  if ← onNewLine then fault
  discard (self .expression)
  endOfStatement

/-! Statements with statements in them. -/

/-- A statement that stands alone. -/
def inner (self : Rules) : Reads Unit := discard (self (.statement true))

/-- A statement that depends on a condition, and another one for when it does not hold. -/
def branching (self : Rules) : Reads Unit := do
  take
  condition self
  inner self
  if ← eatWord "else" then inner self

/-- A statement that is repeated before its condition is asked. -/
def repeating (self : Rules) : Reads Unit := do
  take
  inner self
  expectWord "while"
  condition self
  discard (eatMark ";")

/-- A statement behind a condition. -/
def conditional (self : Rules) : Reads Unit := do
  take
  condition self
  inner self

/-- The cases of a choice. -/
def choosing (self : Rules) : Reads Unit := do
  take
  condition self
  expectMark "\x7b"
  loop (fun () => do
    if ← atMark "\x7d" then return ((), false)
    if ← eatWord "default" then expectMark ":"
    else
      expectWord "case"
      discard (joining (self .expression))
      expectMark ":"
    loop (fun () => do
      if (← atMark "\x7d") || (← atWord "case") || (← atWord "default") then return ((), false)
      discard (self (.statement false))
      return ((), true)) ()
    return ((), true)) ()
  expectMark "\x7d"

/-- A block that may fail, with what is done then, or in any case. -/
def trying (self : Rules) : Reads Unit := do
  take
  block self
  let catches ← eatWord "catch"
  if catches then
    if ← eatMark "(" then
      discard (self .pattern)
      expectMark ")"
    block self
  let finishes ← eatWord "finally"
  if finishes then block self
  unless catches || finishes do fault

/-- Whether a declaration begins at the head of a loop, and whether what it declares never
changes. -/
def headDeclares? : Reads (Option Bool) := do
  if ← atWord "var" then return some false
  if ← atWord "const" then return some true
  if ← atWord "let" then
    let declares ← ahead do
      advance
      let l ← next
      return (l.isNaming && !l.isWord "of") || l.isMark "[" || l.isMark "\x7b"
    return if declares then some false else none
  return none

/-- The rest of the head of a loop that counts, behind its first semicolon. -/
def countingHead (self : Rules) : Reads Unit := do
  expectMark ";"
  if ¬ (← atMark ";") then discard (joining (self .expression))
  expectMark ";"
  if ¬ (← atMark ")") then discard (joining (self .expression))

/-- The rest of the head of a loop over what something holds, if it is one. -/
def eachHead (self : Rules) : Reads Bool := do
  if ← eatWord "of" then
    discard (joining (self .assignment))
    return true
  else if ← eatWord "in" then
    discard (joining (self .expression))
    return true
  else return false

/-- Reads something where `in` is no operator. -/
def separating (reads : Reads α) : Reads α := within (fun s => { s with joins := false }) reads

/-- A loop with a head. What it is over does not begin with a word that could be misread. -/
def looping (self : Rules) : Reads Unit := do
  take
  let waits ← eatWord "await"
  if waits ∧ ¬ (← get).setting.awaits then fault
  expectMark "("
  if ← atMark ";" then countingHead self
  else
    match ← headDeclares? with
    | some isFixed =>
      take
      let d ← separating (declared self isFixed)
      if ¬ (← eachHead self) then
        if d.lacksValue then fault
        countingHead self
    | none =>
      let misleads := (← atWord "let") || (!waits && (← atWord "async"))
      let e ← separating (self .expression)
      if (← atWord "of") || (← atWord "in") then
        if misleads ∧ e.isName ∧ (← atWord "of") then fault
        asTarget true e
        discard (eachHead self)
      else countingHead self
  expectMark ")"
  inner self

end Quire.Script.Grammar
