import Quire.Script.Reader

/-!
What a declaration binds: a name, or a pattern of names whose parts may have initial values.
-/

namespace Quire.Script.Grammar

open Reads

/-- An initial value, if one is given. -/
def initialValue (self : Rules) : Reads Unit := do
  if ← eatMark "=" then discard (joining (self .assignment))

/-- A pattern that may have an initial value. -/
def patternWithInitial (self : Rules) : Reads Expr := do
  let e ← self .pattern
  initialValue self
  return e

/-- How a part of an object or of a class is named. -/
inductive FieldName
  | word (t : Text)
  | text (t : Text)
  | hidden (t : Text)
  | number
  | computed
deriving DecidableEq

/-- The name of a part of an object. -/
def fieldName (self : Rules) : Reads FieldName := do
  match ← next with
  | .word t _ =>
    advance
    return .word t
  | .text t _ =>
    advance
    return .text t
  | .number =>
    advance
    return .number
  | _ =>
    expectMark "["
    discard (joining (self .assignment))
    expectMark "]"
    return .computed

/-- An element of a pattern for arrays, which may be left out. -/
def boundElement (self : Rules) : Reads Expr := do
  if ← atMark "," then return .hole
  patternWithInitial self

/-- A field of a pattern for objects. Only a name may stand for itself. -/
def boundField (self : Rules) : Reads Expr := do
  let isNaming := (← next).isNaming
  let name ← fieldName self
  if isNaming ∧ ¬ (← atMark ":") then
    let .word t := name | failure
    initialValue self
    return .name t
  else
    expectMark ":"
    patternWithInitial self

/-- What a declaration binds. The rest of an object is given a plain name. -/
def pattern (self : Rules) : Reads Expr := do
  if ← eatMark "[" then
    let (elements, rest) ← listedWithRest "]" (boundElement self) (self .pattern)
    expectMark "]"
    return .array (elements ++ rest.toList) false
  else if ← eatMark "\x7b" then
    let (fields, rest) ← listedWithRest "\x7d" (boundField self) (self .pattern)
    if rest.any fun e => !e.isName then fault
    expectMark "\x7d"
    return .object (fields ++ rest.toList) false
  else return .name (← naming)

end Quire.Script.Grammar
