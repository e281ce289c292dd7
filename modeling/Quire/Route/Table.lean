import Quire.Interchange.Value

/-!
Routes and the script that tabulates them. The table imports the page and the layout of every
route under names numbered by the route's place, and lists the routes twice: once with what was
imported, once with the references alone.
-/

namespace Quire

/-- One routed directory: its address, and the page and layout that it shows. References have no
extension and are seen from the output root. -/
structure Route where
  path : Text
  page : Text
  layout : Option Text
deriving DecidableEq

namespace Route

open Interchange (Value)

/-- The subtree, in sources and output alike, whose directories are routed. -/
def pagesDir : Text := "pages".toList

/-- The name that the page of the `n`th route is imported under. -/
def pageBinding (n : Nat) : Text := "page".toList ++ Text.ofNat n

/-- The name that the layout of the `n`th route is imported under. -/
def layoutBinding (n : Nat) : Text := "layout".toList ++ Text.ofNat n

/-- The module that a reference stands for, as the table imports it. -/
def moduleSpecifier (ext reference : Text) : Text :=
  "./".toList ++ reference ++ '.' :: ext

/-- The line that imports a reference under a name. -/
def importLine (ext binding reference : Text) : Text :=
  "import ".toList ++ binding ++ " from ".toList ++
    Text.quoted (moduleSpecifier ext reference) ++ ";\n".toList

/-- The import lines of the `n`th route. -/
def importLines (ext : Text) (r : Route) (n : Nat) : Text :=
  importLine ext (pageBinding n) r.page ++
    match r.layout with
    | some layout => importLine ext (layoutBinding n) layout
    | none => []

/-- What the table holds of the `n`th route. -/
def tableEntry (r : Route) (n : Nat) : Value :=
  .object [
    ("path".toList, .str r.path),
    ("page".toList, .raw (pageBinding n)),
    ("layout".toList, .raw (if r.layout.isSome then layoutBinding n else "null".toList))]

/-- What the table says of a route without its modules. -/
def metadataEntry (r : Route) : Value :=
  .object [
    ("path".toList, .str r.path),
    ("page".toList, .str r.page),
    ("layout".toList, match r.layout with
      | some layout => .str layout
      | none => .raw "null".toList)]

/-- The first line of the table. -/
def tableHead : Text := "// Generated by pagewright. Do not edit.\n".toList

/-- The table of the routes in the given order. -/
def render (ext : Text) (routes : List Route) : Text :=
  tableHead ++ ['\n'] ++
    routes.zipIdx.flatMap (fun (r, n) => importLines ext r n) ++
    (if routes.isEmpty then [] else ['\n']) ++
    "export const routes = ".toList ++
    (Value.array (routes.zipIdx.map fun (r, n) => tableEntry r n)).render ++
    ";\n\nexport const metadata = ".toList ++
    (Value.object [
      ("root".toList, .str pagesDir),
      ("routes".toList, .array (routes.map metadataEntry))]).render ++
    ";\n".toList

end Route

end Quire
