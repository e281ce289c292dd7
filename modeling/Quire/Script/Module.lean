import Quire.Script.Grammar.Exchange

/-!
Which texts are scripts that can take from other ones and give to them. Main statement: such a
script is read by `parse`, which knows the whole grammar, and nothing forbidden is in it.
-/

namespace Quire.Script

open Reads

namespace Grammar

/-- A declaration of a function. One that stands alone is a plain one. -/
def functionStatement (self : Rules) (alone : Bool) : Reads Unit := do
  let isAsync ← atWord "async"
  let isSpecial ← ahead do
    advance
    if isAsync then advance
    atMark "*"
  if alone && (isAsync || isSpecial) then fault
  if (← function self false).isNone then fault

/-- Whether a declaration begins here whose value is let go at the end of its block. -/
def atHeld : Reads Bool :=
  ahead do
    discard (eatWord "await")
    if ¬ (← eatWord "using") then return false
    return (← next).isNaming && !(← onNewLine)

/-- A statement that begins with a word. -/
def wordStatement (self : Rules) (alone : Bool) (t : Text) : Reads Unit := do
  if t = "if".toList then branching self
  else if t = "do".toList then repeating self
  else if t = "while".toList ∨ t = "with".toList then conditional self
  else if t = "for".toList then looping self
  else if t = "switch".toList then choosing self
  else if t = "try".toList then trying self
  else if t = "return".toList then returning self
  else if t = "throw".toList then throwing self
  else if t = "break".toList ∨ t = "continue".toList then jump
  else if t = "debugger".toList then
    take
    endOfStatement
  else if t = "var".toList ∨ t = "const".toList then
    if alone ∧ t = "const".toList then fault
    take
    discard (declaration self (t = "const".toList))
  else if t = "let".toList then letStatement self alone
  else if t = "function".toList ∨ (← atAsyncFunction) then functionStatement self alone
  else if t = "class".toList then
    if alone then fault
    discard (classOf self)
  else if t = "export".toList then giving self
  else if ← atTaking then taking
  else if ← atHeld then
    discard (eatWord "await")
    expectWord "using"
    discard (declaration self true)
  else expressionStatement self

/-- A statement. -/
def statement (self : Rules) (alone : Bool) : Reads Unit := do
  match ← next with
  | .word t escaped => wordStatement self alone (if escaped ∧ t = "let".toList then [] else t)
  | .mark m =>
    if m = ['\x7b'] then block self
    else if m = [';'] then advance
    else if m = ['@'] then discard (classOf self)
    else expressionStatement self
  | _ => expressionStatement self

/-- What can be asked for, by the rules for what it is made of. -/
def rules (self : Rules) : Rules
  | .expression => expression self
  | .assignment => assignment self
  | .joined rank => joined self rank
  | .unary => unary self
  | .place => place self
  | .made => made self
  | .pattern => pattern self
  | .statement alone => do
    statement self alone
    return .other

end Grammar

/-- The grammar, nested at most so deep. -/
def parse : (depth : Nat) → Rules
  | 0, _ => failure
  | n + 1, goal => Grammar.rules (parse n) goal

/-- Statements up to the end of a text. -/
def script (depth : Nat) : Reads Unit :=
  loop (fun () => do
    if (← next) = .finish then return ((), false)
    discard (parse depth (.statement false))
    return ((), true)) ()

/-- Nothing forbidden is left when a reader is done, and no two things are given the same name. -/
def Reader.isSound (r : Reader) : Bool :=
  !r.faulty && r.initials = 0 && r.exported.eraseDups = r.exported

/-- Whether a text is a script that can take from other ones and give to them. -/
def isModule (t : Text) : Bool :=
  let (token, rest) := firstToken t
  match script (8 * (t.length + 2)) { token, rest } with
  | some (_, r) => r.isSound
  | none => false

end Quire.Script
