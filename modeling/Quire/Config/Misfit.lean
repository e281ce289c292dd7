import Quire.Text.Revealed
import Quire.Toml.Item

/-!
What a well-formed configuration file can get wrong, and how it is shown: the place, the line with
the stretch underlined, and what was found there.
-/

namespace Quire.Config

open Toml (Span)

/-- What a value was wanted for. -/
inductive Wanted
  | text
  | path
  | list
  | flag
  | build
  | bundler
deriving DecidableEq

/-- What a place holds that does not belong there: a value of another type, shown as found, or a
field that none of the known ones is. -/
inductive MisfitCause
  | wrongType (found : Text) (wanted : Wanted)
  | unknownField (name : Text) (known : List Text)
deriving DecidableEq

/-- Something that does not belong where it stands. -/
structure Misfit where
  span : Option Span
  cause : MisfitCause
deriving DecidableEq

/-- The name of what was wanted. -/
def Wanted.label : Wanted → Text
  | .text => "a string".toList
  | .path => "path string".toList
  | .list => "a sequence".toList
  | .flag => "a boolean".toList
  | .build => "struct BuildConfig".toList
  | .bundler => "struct BundlerConfig".toList

/-- A text between the marks that set values off. -/
def ticked (t : Text) : Text := '\x60' :: (t ++ ['\x60'])

/-- How a number is shown. -/
def showReal : Toml.Real → Text
  | .finite negative value => (if negative then ['-'] else []) ++ value.shortest.positional
  | .infinite negative => (if negative then ['-'] else []) ++ "inf".toList
  | .nan => "NaN".toList

/-- How a value is shown where it does not belong. -/
def found : Toml.Item → Text
  | .scalar (.string t) _ => "string ".toList ++ Text.revealed t
  | .scalar (.integer n) _ => "integer ".toList ++ ticked (toString n).toList
  | .scalar (.real r) _ => "floating point ".toList ++ ticked (showReal r)
  | .scalar (.boolean b) _ =>
    "boolean ".toList ++ ticked (if b then "true".toList else "false".toList)
  | .scalar .moment _ => "map".toList
  | .array _ _ => "sequence".toList
  | .table _ _ _ => "map".toList
  | .tables _ => "sequence".toList

/-- The known fields as a choice. -/
def choice : List Text → Text
  | [a, b] => "expected ".toList ++ ticked a ++ " or ".toList ++ ticked b
  | known => "expected one of ".toList ++ ", ".toList.intercalate (known.map ticked)

/-- The wording of a cause. -/
def MisfitCause.message : MisfitCause → Text
  | .wrongType found wanted =>
    "invalid type: ".toList ++ found ++ ", expected ".toList ++ wanted.label
  | .unknownField name known =>
    "unknown field ".toList ++ ticked name ++ ", ".toList ++ choice known

/-- The line of a text in which a character stands, its number, counted from one, and how many
characters of the line are before the character. -/
def lineAt (source : Text) (pos : Nat) : Text × Nat × Nat :=
  let before := Text.fields '\n' (source.take pos)
  let line := ((Text.fields '\n' source)[before.length - 1]?).getD []
  (line, before.length, ((before.getLast?).getD []).length)

/-- The stretch of a text underlined in its line. Only the part in the first line is underlined,
and at least one mark is put. -/
def pointAt (source : Text) (span : Span) : Text :=
  let (line, number, column) := lineAt source span.start
  let size := Text.byteSize ((source.drop span.start).take (span.stop - span.start))
  let marks := max 1 (min size (line.byteSize - column))
  let gutter := List.replicate ((Text.ofNat number).length + 1) ' '
  "TOML parse error at line ".toList ++ Text.ofNat number ++ ", column ".toList ++
    Text.ofNat (column + 1) ++ ['\n'] ++
    gutter ++ ['|', '\n'] ++
    Text.ofNat number ++ [' ', '|', ' '] ++ line ++ ['\n'] ++
    gutter ++ ['|'] ++ List.replicate (column + 1) ' ' ++ List.replicate marks '^' ++ ['\n']

/-- What is shown of a misfit in the given file. -/
def Misfit.message (source : Text) (m : Misfit) : Text :=
  ((m.span.map (pointAt source)).getD []) ++ m.cause.message ++ ['\n']

end Quire.Config
