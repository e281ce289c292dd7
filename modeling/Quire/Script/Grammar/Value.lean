import Quire.Script.Grammar.Class

/-!
Expressions, from literals up to those that store something.
-/

namespace Quire.Script.Grammar

open Reads

/-! Simple values. -/

/-- An item of an array or of a call, which may be spread. -/
def spreadable (self : Rules) : Reads Expr := do
  if ← eatMark "..." then return .spread (← self .assignment)
  self .assignment

/-- An element of an array, which may be left out. -/
def element (self : Rules) : Reads Expr := do
  if ← atMark "," then return .hole
  spreadable self

/-- An array. -/
def array (self : Rules) : Reads Expr := do
  expectMark "["
  let (elements, trailing) ← joining (listed "]" (element self))
  expectMark "]"
  return .array elements trailing

/-- A field of an object that stands for the value of its own name. With an initial value it waits
for a pattern that takes it. -/
def shorthand (self : Rules) (t : Text) : Reads Expr := do
  checkName t
  if ← eatMark "=" then
    discard (joining (self .assignment))
    modify fun r => { r with initials := r.initials + 1 }
    return .shorthand true
  else return .shorthand false

/-- A field of an object. -/
def field (self : Rules) : Reads Expr := do
  if ← eatMark "..." then return .spread (← self .assignment)
  let m ← objectModifiers
  let isNaming := (← next).isNaming
  let name ← fieldName self
  if (← atMark "(") ∨ m.isGetter ∨ m.isSetter ∨ m.isGenerator ∨ m.isAsync then
    method self m
    return .field .other
  else if isNaming ∧ ¬ (← atMark ":") then
    let .word t := name | failure
    shorthand self t
  else
    expectMark ":"
    return .field (← joining (self .assignment))

/-- An object. -/
def object (self : Rules) : Reads Expr := do
  expectMark "\x7b"
  let (fields, trailing) ← joining (listed "\x7d" (field self))
  expectMark "\x7d"
  return .object fields trailing

/-- Expressions in parentheses, one or more. -/
def group (self : Rules) : Reads Expr := do
  expectMark "("
  let (inner, trailing) ←
    within (fun s => { s with joins := true, decorates := false }) (listed ")" (self .assignment))
  if trailing then failure
  expectMark ")"
  match inner with
  | [] => failure
  | [e] => return .group e
  | _ => return .group .other

/-- Goes on with a template behind the brace that closes a substitution. -/
def resumeTemplate : Reads Unit := do
  unless ← atMark "\x7d" do failure
  modify fun r =>
    let (lexeme, rest) := (templateTail true ('\x7d' :: r.rest) r.rest).getD (.unknown, [])
    { r with token := ⟨lexeme, false⟩, rest }

/-- A template. Escapes that cannot be read are left to what the template is handed to. -/
def template (self : Rules) (handed : Bool) : Reads Unit :=
  loop (fun () => do
    let .template last readable ← next | failure
    if ¬ readable ∧ ¬ handed then fault
    advance
    if last then return ((), false)
    discard (joining (self .expression))
    resumeTemplate
    return ((), true)) ()

/-- A pattern between slashes, of which the first was taken for a mark. -/
def slashes : Reads Unit := do
  let begun : Text ←
    match ← next with
    | .mark ['/'] => pure []
    | .mark ['/', '='] => pure ['=']
    | _ => failure
  let some rest := afterPattern? false (begun ++ (← get).rest) | failure
  modify fun r => { r with rest }
  advance

/-! Calls and parts. -/

/-- The arguments of a call. -/
def arguments (self : Rules) : Reads Unit := do
  expectMark "("
  discard (within (fun s => { s with joins := true, decorates := false })
    (listed ")" (spreadable self)))
  expectMark ")"

/-- The name of a part behind a dot. -/
def partName : Reads Unit := do
  if let .hidden _ ← next then advance else discard anyWord

/-- The position of a part in brackets. -/
def position (self : Rules) : Reads Unit := do
  expectMark "["
  discard (joining (self .expression))
  expectMark "]"

/-- Goes on with parts, templates and, where they are wanted, calls. What is behind a part that may
be missing may be missing too. -/
def withParts (self : Rules) (calls : Bool) (first : Expr) : Reads Expr := do
  let step : Expr × Bool → Reads ((Expr × Bool) × Bool) := fun (e, chained) => do
    let done := ((e, chained), false)
    if ← eatMark "." then
      partName
      return ((.member, chained), true)
    else if ← atMark "?." then
      let calling ← ahead do
        advance
        atMark "("
      if calling ∧ ¬ calls then return done
      advance
      if calling then
        arguments self
        return ((.other, true), true)
      else if ← atMark "[" then
        position self
        return ((.member, true), true)
      else
        partName
        return ((.member, true), true)
    else if (← atMark "[") ∧ ¬ (← get).setting.decorates then
      position self
      return ((.member, chained), true)
    else if (← next).isTemplate then
      if chained then fault
      template self true
      return ((.other, chained), true)
    else if calls ∧ (← atMark "(") then
      arguments self
      return ((.other, chained), true)
    else return done
  let (e, chained) ← loop step (first, false)
  return if chained then .chain else e

/-- What makes a new thing, and its arguments, if they are given. -/
def making (self : Rules) : Reads Expr := do
  expectWord "new"
  if ← eatMark "." then
    expectWord "target"
    return .other
  let maker ← self .made
  if maker matches .loaded | .chain then fault
  if ← atMark "(" then arguments self
  return .other

/-- Loading another script while running, or what is known of this one. -/
def loading (self : Rules) : Reads Expr := do
  expectWord "import"
  if ← eatMark "." then
    if ← eatWord "meta" then return .other
    unless (← eatWord "source") || (← eatWord "defer") do failure
  expectMark "("
  joining do
    discard (self .assignment)
    if ← eatMark "," then
      if ¬ (← atMark ")") then
        discard (self .assignment)
        discard (eatMark ",")
  expectMark ")"
  return .loaded

/-- What a class inherits from, which is not a value of its own. -/
def inherited : Reads Expr := do
  expectWord "super"
  unless (← atMark ".") || (← atMark "[") || (← atMark "(") do fault
  return .other

/-- A word where a value is wanted. -/
def wordValue (self : Rules) (t : Text) : Reads Expr := do
  if ["true", "false", "null", "this"].any fun w => t = w.toList then
    take
    return .other
  else if t = "function".toList ∨ (← atAsyncFunction) then
    discard (function self true)
    return .other
  else if t = "class".toList then
    discard (classOf self)
    return .other
  else if t = "new".toList then making self
  else if t = "import".toList then loading self
  else if t = "super".toList then inherited
  else return .name (← naming)

/-- The simplest values. -/
def primary (self : Rules) : Reads Expr := do
  match ← next with
  | .word t _ => wordValue self t
  | .text _ _ =>
    advance
    return .other
  | .number =>
    advance
    return .other
  | .template _ _ =>
    template self false
    return .other
  | .mark m =>
    if m = ['['] then array self
    else if m = ['\x7b'] then object self
    else if m = ['('] then group self
    else if m = ['@'] then
      discard (classOf self)
      return .other
    else
      slashes
      return .other
  | _ => failure

/-- What follows a `new`. -/
def made (self : Rules) : Reads Expr := do withParts self false (← primary self)

/-- A call, a part of something, or something simpler. -/
def place (self : Rules) : Reads Expr := do withParts self true (← primary self)

/-! Operators. -/

/-- Whether a word or a literal comes behind the next token on its line, which is then meant as an
operator. -/
def precedesOperand : Reads Bool :=
  ahead do
    advance
    if ← onNewLine then return false
    match ← next with
    | .word t _ => return t ≠ "in".toList && t ≠ "instanceof".toList
    | .text _ _ => return true
    | .number => return true
    | .template _ _ => return true
    | _ => return false

/-- Whether an expression that waits begins here. -/
def atWait : Reads Bool := do
  return (← atWord "await") && ((← get).setting.awaits || (← precedesOperand))

/-- The signs and words before one operand. -/
def isSign (l : Lexeme) : Bool :=
  l.isMark "+" || l.isMark "-" || l.isMark "!" || l.isMark "~" || l.isWord "typeof"
    || l.isWord "void" || l.isWord "delete"

/-- The sign for counting up or down. -/
def isStep (l : Lexeme) : Bool := l.isMark "++" || l.isMark "--"

/-- An operand with what stands directly before and behind it. -/
def unary (self : Rules) : Reads Expr := do
  if isSign (← next) then
    take
    discard (self .unary)
    return .signed
  else if ← atWait then
    take
    if ¬ (← get).setting.awaits then fault
    discard (within (fun s => { s with awaits := true }) (self .unary))
    return .signed
  else if isStep (← next) then
    advance
    asTarget false (← self .unary)
    return .other
  else
    let e ← place self
    if isStep (← next) && !(← onNewLine) then
      asTarget false e
      advance
      return .other
    else return e

/-- How close the operator between two operands binds. -/
def rank? (joins : Bool) : Lexeme → Option Nat
  | .mark m => [["??"], ["||"], ["&&"], ["|"], ["^"], ["&"], ["==", "!=", "===", "!=="],
      ["<", ">", "<=", ">="], ["<<", ">>", ">>>"], ["+", "-"], ["*", "/", "%"],
      ["**"]].findIdx? (·.any fun s => s.toList = m)
  | .word t _ =>
    if t = "instanceof".toList ∨ (joins ∧ t = "in".toList) then some 7 else none
  | _ => none

/-- A test for a hidden name, which only makes sense among comparisons. -/
def membership (self : Rules) : Reads Expr := do
  advance
  expectWord "in"
  if (← self (.joined 8)) matches .membership then failure
  return .membership

/-- Operands joined by operators of at least the given rank. Two kinds of choice are not mixed
without parentheses, and a sign does not stand before a power. -/
def joined (self : Rules) (least : Nat) : Reads Expr := do
  let setting := (← get).setting
  let first ←
    if ((← next) matches .hidden _) && setting.joins && least < 8 then membership self
    else unary self
  loop (fun e => do
    let sign ← next
    match rank? setting.joins sign with
    | none => return (e, false)
    | some rank =>
      if rank < least then return (e, false)
      take
      let isPower := rank = 11
      let second ← self (.joined (if isPower then rank else rank + 1))
      if rank = 0 ∧ ((e matches .logical) ∨ (second matches .logical)) then fault
      if isPower ∧ (e matches .signed) then fault
      return (if rank = 1 ∨ rank = 2 then .logical else .other, true)) first

/-- The signs that store a value, the plain one first. -/
def storeMarks : List Text :=
  ["=", "+=", "-=", "*=", "/=", "%=", "**=", "<<=", ">>=", ">>>=", "&=", "|=", "^=", "&&=", "||=",
    "??="].map String.toList

/-- Whether a function hands out a value here. -/
def atYield : Reads Bool := do
  return (← atWord "yield") && ((← get).setting.yields || (← precedesOperand))

/-- A value that a function hands out on its way. -/
def yielding (self : Rules) : Reads Expr := do
  take
  if ¬ (← get).setting.yields then fault
  if ← onNewLine then return .other
  let delegates ← eatMark "*"
  let ends := (← next) = .finish || (← atWord "in")
    || [";", "\x7d", ")", "]", ":", ","].any ((← next).isMark ·)
  if delegates ∨ ¬ ends then
    discard (within (fun s => { s with yields := true }) (self .assignment))
  return .other

/-- What is behind a condition, if it is one. -/
def choice (self : Rules) (e : Expr) : Reads Expr := do
  if ← eatMark "?" then
    discard (joining (self .assignment))
    expectMark ":"
    discard (self .assignment)
    return .other
  else return e

/-- An expression that may store something, without a comma outside of all parentheses. -/
def assignment (self : Rules) : Reads Expr := do
  if ← atYield then return ← yielding self
  if let some e ← arrowFunction? self then return e
  if let some e ← asyncArrow? self then return e
  let e ← self (.joined 0)
  match e, ← next with
  | .name _, .mark ['=', '>'] =>
    arrow
    arrowBody self false
  | _, .mark m =>
    if m ∈ storeMarks then
      let plain := m = ['=']
      asTarget plain e
      advance
      discard (self .assignment)
      return .store plain
    else choice self e
  | _, _ => return e

/-- Expressions with commas between them, of which the last one counts. -/
def expression (self : Rules) : Reads Expr := do
  let first ← within (fun s => { s with decorates := false }) (self .assignment)
  loop (fun e => do
    if ¬ (← eatMark ",") then return (e, false)
    discard (self .assignment)
    return (.other, true)) first

end Quire.Script.Grammar
