import Quire.Script.Lexeme

/-!
What the grammar has to remember of an expression: whether it names something that can be stored to,
whether it can be read again as a pattern, and which operators it is made with. Main statement: the
count of initial values that a pattern takes with it.
-/

namespace Quire.Script

/-- An expression, as far as it matters what it is. -/
inductive Expr
  | name (t : Text)
  /-- A part of something, which can be stored to. -/
  | member
  /-- A part of something that may be missing. -/
  | chain
  | group (inner : Expr)
  | array (elements : List Expr) (trailingComma : Bool)
  | object (fields : List Expr) (trailingComma : Bool)
  /-- An element that is left out. -/
  | hole
  | spread (inner : Expr)
  /-- A field with its value. -/
  | field (value : Expr)
  /-- A field that is named like its value, perhaps with an initial value, which only a pattern can
  have. -/
  | shorthand (initial : Bool)
  /-- Storing, by the plain sign or by one that also computes. -/
  | store (plain : Bool)
  /-- An operator before its operand. -/
  | signed
  /-- Operands of which the second may not be needed. -/
  | logical
  /-- A test for a hidden name. -/
  | membership
  | loaded
  | other

namespace Expr

/-- Whether a single thing can be stored to. Gives the count of initial values in it, which is
zero. -/
def single : Expr → Option Nat
  | .name _ => some 0
  | .member => some 0
  | .group inner => single inner
  | _ => none

mutual

/-- How many initial values an expression has that is read again as a pattern; nothing if it is
none. -/
def initials : Expr → Option Nat
  | .name _ => some 0
  | .member => some 0
  | .group inner => single inner
  | .array elements trailing => elementInitials trailing elements
  | .object fields trailing => fieldInitials trailing fields
  | .field value => partInitials value
  | .shorthand initial => some (if initial then 1 else 0)
  | _ => none
termination_by structural e => e

/-- The same of an expression that may have an initial value itself. -/
def partInitials : Expr → Option Nat
  | .store plain => if plain then some 0 else none
  | .name _ => some 0
  | .member => some 0
  | .group inner => single inner
  | .array elements trailing => elementInitials trailing elements
  | .object fields trailing => fieldInitials trailing fields
  | _ => none
termination_by structural e => e

/-- The same of the elements of an array. What is spread comes last, without a comma behind it. -/
def elementInitials (trailing : Bool) : List Expr → Option Nat
  | [] => some 0
  | .hole :: rest => elementInitials trailing rest
  | .spread inner :: rest => if rest.isEmpty ∧ ¬ trailing then initials inner else none
  | e :: rest =>
    match partInitials e, elementInitials trailing rest with
    | some n, some m => some (n + m)
    | _, _ => none
termination_by structural es => es

/-- The same of the fields of an object. -/
def fieldInitials (trailing : Bool) : List Expr → Option Nat
  | [] => some 0
  | .spread inner :: rest => if rest.isEmpty ∧ ¬ trailing then initials inner else none
  | e :: rest =>
    match initials e, fieldInitials trailing rest with
    | some n, some m => some (n + m)
    | _, _ => none
termination_by structural es => es

end

/-- Whether an expression is a name and nothing else. -/
def isName : Expr → Bool
  | .name _ => true
  | _ => false

mutual

/-- The names that a pattern binds. -/
def names : Expr → List Text
  | .name t => [t]
  | .array elements _ => namesOf elements
  | .object fields _ => namesOf fields
  | _ => []
termination_by structural e => e

/-- The names that patterns bind. -/
def namesOf : List Expr → List Text
  | [] => []
  | e :: rest => names e ++ namesOf rest
termination_by structural es => es

end

end Expr

end Quire.Script
