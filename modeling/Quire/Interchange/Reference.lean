import Quire.Interchange.Value

/-!
References to the components that islands need, as a build collects them, and the list of them
that the browser gets. A component that two files use is listed twice.
-/

namespace Quire

/-- One use of a component in the browser. -/
structure Reference where
  id : Text
  /-- The name it was imported under. -/
  name : Text
  /-- Where its template is, seen from the source root. -/
  sourcePath : Text
  /-- Where its module is, seen from the output root. -/
  importPath : Text
  /-- The script that loads its module. -/
  importExpr : Text
deriving DecidableEq

namespace Interchange

/-- The script that loads a module when it is needed. -/
def lazyImport (specifier : Text) : Text :=
  "() => import(".toList ++ Text.quoted specifier ++ [')']

/-- What the browser is told of one reference. -/
def entryOf (r : Reference) : Value :=
  .object [
    ("id".toList, .str r.id),
    ("name".toList, .str r.name),
    ("path".toList, .str r.sourcePath),
    ("import".toList, .raw r.importExpr)]

/-- The list of all references. -/
def listOf (rs : List Reference) : Value := .array (rs.map entryOf)

end Interchange

end Quire
