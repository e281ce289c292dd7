import Quire.Text.Basic

/-!
The log of a run. Every message has a topic, which is shown in brackets before it; a message on one
line is cut to the width of the log.
-/

namespace Quire

namespace Log

/-- What a message is about. -/
inductive Topic
  | build
  | transpile
  | assets
  | routes
  | manifest
  | bundle
  | warn
  | error
deriving DecidableEq

/-- A message. Details are shown only to those who ask for them. -/
structure Line where
  topic : Topic
  message : Text
  isDetail : Bool := false
deriving DecidableEq

/-- The name of a topic. -/
def Topic.label : Topic → Text
  | .build => "build".toList
  | .transpile => "transpile".toList
  | .assets => "assets".toList
  | .routes => "routes".toList
  | .manifest => "manifest".toList
  | .bundle => "bundle".toList
  | .warn => "warn".toList
  | .error => "error".toList

/-- The number of a topic's colour. -/
def Topic.color : Topic → Text
  | .build => "92".toList
  | .bundle => "94".toList
  | .manifest => "94".toList
  | .error => "91".toList
  | _ => "93".toList

/-- How the log is shown. -/
structure Style where
  colored : Bool
  detailed : Bool
deriving DecidableEq

/-- How many columns a line of the log has. -/
def width : Nat := 120

/-- A topic in its brackets. -/
def Topic.bracketed (colored : Bool) (t : Topic) : Text :=
  let plain := '[' :: (t.label ++ [']'])
  if colored then "\x1b[1;".toList ++ t.color ++ ['m'] ++ plain ++ "\x1b[0m".toList else plain

/-- A message as it is shown. Behind the brackets and a space it gets what is left of the width,
counted in bytes; a message of several lines is shown in full. -/
def Line.render (colored : Bool) (l : Line) : Text :=
  let room := width - (l.topic.label.length + 3)
  l.topic.bracketed colored ++ [' '] ++
    (if l.message.contains '\n' then l.message else l.message.takeBytes room) ++ ['\n']

/-- All that is shown of a log. -/
def render (style : Style) (lines : List Line) : Text :=
  (lines.filter fun l => style.detailed || !l.isDetail).flatMap (Line.render style.colored)

end Log

end Quire
