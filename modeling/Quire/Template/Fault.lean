import Quire.Text.Basic

/-!
What can be wrong with a template, and on which line.
-/

namespace Quire.Template

/-- The causes for which a template is refused. -/
inductive Cause
  | unterminatedHeader
  | malformedImport (line : Text)
  | duplicateImport (name : Text)
  | emptyExpression
  | unterminatedBrace
  | unknownComponent (name : Text)
  | notSelfClosing (name : Text)
  | unterminatedTag (name : Text)
  | malformedAttribute (tag : Text)
  | unterminatedAttribute (tag : Text)
deriving DecidableEq

/-- A text between the marks that set names off in messages. -/
def marked (t : Text) : Text := '\x60' :: (t ++ ['\x60'])

/-- The wording of a cause. -/
def Cause.message : Cause → Text
  | .unterminatedHeader => "unterminated header".toList
  | .malformedImport line => "malformed import ".toList ++ marked line
  | .duplicateImport name => "duplicate import ".toList ++ marked name
  | .emptyExpression => "empty expression".toList
  | .unterminatedBrace => "unterminated ".toList ++ marked ['{']
  | .unknownComponent name => "unknown component ".toList ++ marked name
  | .notSelfClosing name => "component ".toList ++ marked name ++ " must be self-closing".toList
  | .unterminatedTag name => "unterminated tag ".toList ++ marked name
  | .malformedAttribute tag => "malformed attribute in ".toList ++ marked tag
  | .unterminatedAttribute tag => "unterminated attribute in ".toList ++ marked tag

/-- A cause and the line, counted from one, of what it is about. -/
structure Fault where
  line : Nat
  cause : Cause
deriving DecidableEq

/-- A message about a line. -/
def atLine (line : Nat) (message : Text) : Text :=
  "line ".toList ++ Text.ofNat line ++ ": ".toList ++ message

/-- The wording of a fault: its line first. -/
def Fault.message (f : Fault) : Text := atLine f.line f.cause.message

end Quire.Template
