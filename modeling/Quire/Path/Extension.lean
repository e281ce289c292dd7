import Quire.Path.Basic

/-!
The extension of a path: what follows the last dot of its last name. A dot that begins the name
and is its only one starts no extension.
-/

namespace Quire.Path

/-- A name as its stem and its extension. -/
def nameParts (name : Text) : Text × Option Text :=
  match name.cutLast '.' with
  | none => (name, none)
  | some ([], _) => (name, none)
  | some (stem, ext) => (stem, some ext)

/-- The extension of the last name. -/
def extension? (p : Path) : Option Text := p.fileName?.bind fun n => (nameParts n).2

/-- Puts the extension after the stem of the last name, dropping whatever stands behind the stem.
An empty extension puts no dot; a path without a last name is left alone. -/
def putExtension (p : Path) (ext : Text) : Path :=
  match p.splitName? with
  | none => p
  | some (front, name) =>
    let stem := front ++ (nameParts name).1
    if ext = [] then ⟨stem⟩ else ⟨stem ++ '.' :: ext⟩

/-- The path with another extension. As many characters as the old extension has are first cut
from the end of the text; where that leaves no last name, as in `..x`, nothing more is done. -/
def withExtension (p : Path) (ext : Text) : Path :=
  match p.extension? with
  | none => p.putExtension ext
  | some old => putExtension ⟨p.text.take (p.text.length - old.length)⟩ ext

/-- Whether a text may be an extension: it must not lead to another directory. -/
def isExtension (ext : Text) : Bool := !ext.contains '/'

example : (withExtension ⟨"/o/a.b.pw/".toList⟩ "js".toList).text = "/o/a.b.js".toList := by
  decide
example : (withExtension ⟨"/o/.pw".toList⟩ "js".toList).text = "/o/.pw.js".toList := by decide
example : (withExtension ⟨"/o/..x".toList⟩ "js".toList).text = "/o/..".toList := by decide

end Quire.Path
