import Quire.Script.Grammar.Statement

/-!
What a script takes from other ones and what it gives to them.
-/

namespace Quire.Script.Grammar

open Reads

/-- A name at the border of a script: a word or a string. -/
inductive Label
  | word (t : Text)
  | text (t : Text)
deriving DecidableEq

/-- The name itself. -/
def Label.name : Label → Text
  | .word t => t
  | .text t => t

/-- Whether a script can give away something of its own by this name alone. -/
def Label.isLocal : Label → Bool
  | .word t => !reservedWords.contains t && !keptWords.contains t
  | .text _ => false

/-- A name at the border of a script. A string is made of whole characters. -/
def label : Reads Label := do
  if let .text t broken ← next then
    if broken then fault
    advance
    return .text t
  return .word (← anyWord)

/-- What is asked of another script, by keys of which none is given twice. -/
def demands : Reads Unit := do
  let sameLine := !(← onNewLine)
  unless (← atWord "with") || (sameLine && (← atWord "assert")) do return
  take
  expectMark "\x7b"
  let demand : Reads Expr := do
    let key ← label
    expectMark ":"
    discard string
    return .name key.name
  let (keys, _) ← listed "\x7d" demand
  expectMark "\x7d"
  let names := Expr.namesOf keys
  if names.eraseDups ≠ names then fault

/-- Where something comes from. -/
def source : Reads Unit := do
  expectWord "from"
  discard string

/-! Taking. -/

/-- One of the things that are taken by name, perhaps under a name of its own. -/
def taken : Reads Expr := do
  let isNaming := (← next).isNaming
  let l ← label
  if ← eatWord "as" then return .name (← naming)
  unless isNaming do failure
  checkName l.name
  return .name l.name

/-- All that another script gives, under one name. -/
def takenWhole : Reads Unit := do
  expectMark "*"
  expectWord "as"
  discard naming

/-- Things that are taken by name. -/
def takenByName : Reads Unit := do
  expectMark "\x7b"
  discard (listed "\x7d" taken)
  expectMark "\x7d"

/-- What is taken beside the main thing, of which the name was read, if it is taken. -/
def takenBeside (main : Bool) : Reads Unit := do
  if main then
    unless ← eatMark "," do return
  if ← atMark "*" then takenWhole else takenByName

/-- The name for the main thing. The words that say when another script is run are no names. -/
def takenMain : Reads Bool := do
  unless (← next).isNaming do return false
  let t ← naming
  if t = "defer".toList then
    if ← atMark "*" then return false
  if t = "source".toList ∧ (← next).isNaming then
    let isName ← if ← atWord "from" then ahead do
        advance
        atWord "from"
      else pure true
    if isName then discard naming
  return true

/-- Takes something from another script, or only has it run. -/
def taking : Reads Unit := do
  take
  if (← next) matches .text _ _ then discard string
  else
    let main ← takenMain
    if (← next) matches .text _ _ then discard string
    else
      takenBeside main
      source
  demands
  endOfStatement

/-- Whether something is taken from another script here, and not while running. -/
def atTaking : Reads Bool := do
  if ¬ (← atWord "import") then return false
  ahead do
    advance
    return !(← atMark "(") && !(← atMark ".")

/-! Giving. -/

/-- One of the things that are given by name: its own name, and the one under which it is given. -/
def given : Reads (Label × Label) := do
  let l ← label
  if ← eatWord "as" then return (l, ← label)
  return (l, l)

/-- Things that are given by name, of the script's own or of another one. -/
def givenByName : Reads Unit := do
  expectMark "\x7b"
  let items ← loop (fun items => do
    if ← atMark "\x7d" then return (items, false)
    let item ← given
    if ¬ (← atMark "\x7d") then expectMark ","
    return (items ++ [item], true)) []
  expectMark "\x7d"
  if ← atWord "from" then
    source
    demands
  else if items.any fun i => !i.1.isLocal then fault
  items.forM fun i => exports i.2.name
  endOfStatement

/-- All that another script gives, perhaps under one name. -/
def givenWhole : Reads Unit := do
  expectMark "*"
  if ← eatWord "as" then exports (← label).name
  source
  demands
  endOfStatement

/-- The main thing that a script gives. -/
def givenMain (self : Rules) : Reads Unit := do
  take
  if (← atWord "function") || (← atAsyncFunction) then discard (function self false)
  else if (← atWord "class") || (← atMark "@") then discard (classOf self)
  else
    discard (self .assignment)
    endOfStatement
  exports "default".toList

/-- Something that is declared and given at once. -/
def givenDeclared (self : Rules) : Reads Unit := do
  if (← atWord "function") || (← atAsyncFunction) then
    let some name ← function self false | failure
    exports name
  else if (← atWord "class") || (← atMark "@") then
    if let some name ← classOf self then exports name
  else
    unless (← atWord "var") || (← atWord "let") || (← atWord "const") do failure
    let isFixed ← atWord "const"
    take
    (← declaration self isFixed).forM exports

/-- Gives something to other scripts. -/
def giving (self : Rules) : Reads Unit := do
  take
  if ← atWord "default" then givenMain self
  else if ← atMark "*" then givenWhole
  else if ← atMark "\x7b" then givenByName
  else givenDeclared self

end Quire.Script.Grammar
