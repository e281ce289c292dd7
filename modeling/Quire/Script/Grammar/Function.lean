import Quire.Script.Grammar.Pattern

/-!
Functions: their parameters, their bodies, and the short form with an arrow.
-/

namespace Quire.Script.Grammar

open Reads

/-- Parameters, with how many there are and whether the last one takes all that is left. -/
def parameters (self : Rules) : Reads (Nat × Bool) := do
  expectMark "("
  let (items, rest) ← listedWithRest ")" (patternWithInitial self) (self .pattern)
  expectMark ")"
  return (items.length + rest.toList.length, rest.isSome)

/-- Statements up to a closing brace, which is left. -/
def statements (self : Rules) : Reads Unit :=
  loop (fun () => do
    if ← atMark "\x7d" then return ((), false)
    discard (self (.statement false))
    return ((), true)) ()

/-- Statements between braces. -/
def block (self : Rules) : Reads Unit := do
  expectMark "\x7b"
  statements self
  expectMark "\x7d"

/-- What is allowed in a function. -/
def insideFunction (isAsync isGenerator : Bool) (s : Setting) : Setting :=
  { s with joins := true, awaits := isAsync, yields := isGenerator, decorates := false }

/-- The body of a function. -/
def body (self : Rules) : Reads Unit :=
  within (fun s => { s with joins := true, returns := true, decorates := false }) (block self)

/-- The parameters and the body of a function, with what is known of the parameters. -/
def parametersAndBody (self : Rules) (isAsync isGenerator : Bool) : Reads (Nat × Bool) :=
  within (insideFunction isAsync isGenerator) do
    let known ← parameters self
    body self
    return known

/-- Whether a function begins here that may wait for something. -/
def atAsyncFunction : Reads Bool := do
  if ¬ (← atWord "async") then return false
  ahead do
    advance
    return (← atWord "function") && !(← onNewLine)

/-- A function, and its name, if it has one. The name of a function that is a value belongs to its
inside. -/
def function (self : Rules) (isValue : Bool) : Reads (Option Text) := do
  let isAsync ← eatWord "async"
  expectWord "function"
  let isGenerator ← eatMark "*"
  let inside := if isValue then insideFunction isAsync isGenerator else id
  let name ← if (← next).isNaming then some <$> within inside naming else pure none
  discard (parametersAndBody self isAsync isGenerator)
  return name

/-! Arrows. -/

/-- What follows an arrow: a block, or the value itself. -/
def arrowBody (self : Rules) (isAsync : Bool) : Reads Expr :=
  within (fun s => { s with awaits := isAsync, yields := false }) do
    if ← atMark "\x7b" then body self else discard (self .assignment)
    return .other

/-- The arrow, which stands on the line of the parameters. -/
def arrow : Reads Unit := do
  if ← onNewLine then fault
  expectMark "=>"

/-- The parameters before an arrow, and the arrow. Tells whether the function may wait. -/
def arrowHead (self : Rules) : Reads Bool := do
  let isAsync ← eatWord "async"
  discard (within (fun s => { s with awaits := s.awaits || isAsync }) (parameters self))
  arrow
  return isAsync

/-- How sure it is that parameters of an arrow begin with a parenthesis. -/
inductive Likelihood
  | no
  | perhaps
  | yes
deriving DecidableEq

/-- How sure it is that parameters of an arrow begin here, after the first few tokens. -/
def arrowLikelihood : Reads Likelihood := do
  let look : Reads Likelihood := do
    if ← eatWord "async" then
      if ← onNewLine then return .no
    expectMark "("
    if ← eatMark ")" then
      return if (← atMark "=>") || (← atMark "\x7b") then .yes else .no
    else if (← atMark "[") || (← atMark "\x7b") then return .perhaps
    else if ← atMark "..." then return .yes
    else
      unless (← next).isNaming || (← atWord "this") do return .no
      advance
      return if (← atMark ",") || (← atMark "=") || (← atMark ")") then .perhaps else .no
  return (← glance look).getD .no

/-- A function with an arrow whose parameters are in parentheses, if one begins here. -/
def arrowFunction? (self : Rules) : Reads (Option Expr) := do
  match ← arrowLikelihood with
  | .no => return none
  | .yes => return some (← arrowBody self (← arrowHead self))
  | .perhaps =>
    match ← attempt (arrowHead self) with
    | some isAsync => return some (← arrowBody self isAsync)
    | none => return none

/-- A function with an arrow that may wait and whose one parameter is a name, if one begins
here. -/
def asyncArrow? (self : Rules) : Reads (Option Expr) := do
  if ¬ (← atWord "async") then return none
  let begins ← ahead do
    advance
    if (← onNewLine) || !(← next).isNaming then return false
    advance
    return (← atMark "=>") && !(← onNewLine)
  if begins then
    take
    discard naming
    arrow
    return some (← arrowBody self true)
  else return none

end Quire.Script.Grammar
