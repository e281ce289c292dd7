import Quire.Script.Grammar.Function

/-!
Classes and what their bodies hold: methods, fields and blocks that run once.
-/

namespace Quire.Script.Grammar

open Reads

/-- What stands before the name of a part of a class or of an object, and what it makes of the
part. -/
structure Modifiers where
  isStatic : Bool := false
  isAsync : Bool := false
  isGenerator : Bool := false
  isAccessor : Bool := false
  isGetter : Bool := false
  isSetter : Bool := false

/-- Passes by a word that says something about the name behind it. Before anything but a name it is
a name itself. -/
def eatModifier (word : String) (onSameLine : Bool) : Reads Bool := do
  if ¬ (← atWord word) then return false
  let stands ← ahead do
    advance
    return (← next).beginsField && !(onSameLine && (← onNewLine))
  if stands then take
  return stands

/-- The modifiers of a part of an object. -/
def objectModifiers : Reads Modifiers := do
  let isAsync ← eatModifier "async" true
  let isGetter ← eatModifier "get" false
  let isSetter ← if isGetter then pure false else eatModifier "set" false
  let isGenerator ← eatMark "*"
  return { isAsync, isGetter, isSetter, isGenerator }

/-- The modifiers of a part of a class. -/
def classModifiers : Reads Modifiers := do
  let isStatic ← eatModifier "static" false
  let isAccessor ← eatModifier "accessor" true
  return { ← objectModifiers with isStatic, isAccessor }

/-- The parameters and the body of a method. What gives a value has no parameter, and what takes one
has one plain parameter. -/
def method (self : Rules) (m : Modifiers) : Reads Unit := do
  let known ← parametersAndBody self m.isAsync m.isGenerator
  if (m.isGetter ∧ known.1 ≠ 0) ∨ (m.isSetter ∧ known ≠ (1, false)) then fault
  if (m.isGetter ∨ m.isSetter) ∧ (m.isAsync ∨ m.isGenerator) then fault

/-- Decorators, if there are some. -/
def decorators (self : Rules) : Reads Bool :=
  loop (fun found => do
    if ← eatMark "@" then
      discard (within (fun s => { s with decorates := true }) (self .place))
      return (true, true)
    return (found, false)) false

/-- A block of a class that runs once. -/
def staticBlock (self : Rules) : Reads Unit := do
  take
  within (fun s => { s with awaits := true, yields := false, returns := false }) (block self)

/-- Whether a block of a class begins here that runs once. -/
def atStaticBlock : Reads Bool := do
  if ¬ (← atWord "static") then return false
  ahead do
    advance
    atMark "\x7b"

/-- The name of a part of a class. -/
def memberName (self : Rules) : Reads FieldName := do
  if let .hidden t ← next then
    advance
    return .hidden t
  fieldName self

/-- Whether a part of a class is named like the function that makes its values. -/
def FieldName.isConstructor (n : FieldName) : Bool :=
  n = .word "constructor".toList || n = .text "constructor".toList

/-- Whether a part of a class is named like what its values inherit from. -/
def FieldName.isPrototype (n : FieldName) : Bool :=
  n = .word "prototype".toList || n = .text "prototype".toList

/-- A part of a class. -/
def classPart (self : Rules) : Reads Unit := do
  discard (decorators self)
  if ← atStaticBlock then
    staticBlock self
    return
  let m ← classModifiers
  let name ← memberName self
  if name = .hidden "constructor".toList then fault
  if m.isStatic ∧ name.isPrototype then fault
  if (← atMark "(") ∨ m.isGetter ∨ m.isSetter ∨ m.isGenerator ∨ m.isAsync then
    if name.isConstructor ∧ ¬ m.isStatic
        ∧ (m.isGetter ∨ m.isSetter ∨ m.isGenerator ∨ m.isAsync) then fault
    method self m
  else
    if name.isConstructor then fault
    if ← eatMark "=" then
      let inside (s : Setting) : Setting :=
        { s with joins := true, awaits := false, yields := false, decorates := false }
      discard (within inside (self .expression))
    endOfStatement

/-- The body of a class. -/
def classBody (self : Rules) : Reads Unit := do
  expectMark "\x7b"
  loop (fun () => do
    if ← atMark "\x7d" then return ((), false)
    if ¬ (← eatMark ";") then classPart self
    return ((), true)) ()
  expectMark "\x7d"

/-- A class, and its name, if it has one. -/
def classOf (self : Rules) : Reads (Option Text) := do
  discard (decorators self)
  expectWord "class"
  let name ← if (← next).isNaming then some <$> naming else pure none
  if ← eatWord "extends" then discard (self .place)
  classBody self
  return name

end Quire.Script.Grammar
