import Quire.Build.Job
import Quire.Route.Scan
import Quire.Route.ServerScript
import Quire.Script.Module

/-!
Writing the route table of an output tree. Nothing is written unless every module that the table
imports is there and the table is a script.
-/

namespace Quire.Build

/-- The file of the route table. -/
def routesFile : Text := "routes.js".toList

/-- The file of the server's script. -/
def serverFile : Text := "main.js".toList

/-- What came of the route table. -/
inductive RouteStatus
  /-- It was written, with so many routes. -/
  | emitted (count : Nat)
  /-- There is no routed directory at all. -/
  | noPages
  /-- No directory holds a page. -/
  | noRoutes
  | failed (f : Failure)

/-- The modules that a route needs, its page first. -/
def modulesOf (output : Path) (ext : Text) (r : Route) : List Path :=
  (r.page :: r.layout.toList).map fun reference => output.child (reference ++ '.' :: ext)

/-- The first module that a route needs and that is not there. -/
def missingModule? (d : Disk) (output : Path) (ext : Text) (r : Route) : Option TableFault :=
  ((modulesOf output ext r).find? fun file => !d.isFile file).map (.missing r.path)

/-- What is wrong with a table of the given routes. -/
def tableFault? (d : Disk) (output : Path) (ext : Text) (routes : List Route) :
    Option TableFault :=
  routes.findSome? (missingModule? d output ext) <|>
    if Script.isModule (Route.render ext routes) then none else some .noScript

/-- Writes a file that a build makes by itself. -/
def emitFile (p : Path) (t : Text) : Job Unit := change (.ofWhole (·.writeText p t)) (.disk p)

/-- Writes the table of routes and the server's script. The answer is where the table is. -/
def emit (output : Path) (ext : Text) (routes : List Route) : Job Path := do
  let table := output.child routesFile
  match ← look (tableFault? · output ext routes) with
  | some fault => fail (.table table fault)
  | none =>
    change (Disk.makeDirs output) (.disk output)
    emitFile table (Route.render ext routes)
    emitFile (output.child serverFile) Route.serverScript
    return table

/-- The markers of a configuration. -/
def markersOf (c : Config) : Route.Markers := ⟨c.pageMarker, c.layoutMarker⟩

/-- Looks for routes in an output tree and writes their table. -/
def emitRoutes (c : Config) (output : Path) : Job RouteStatus := do
  let pages := output.child Route.pagesDir
  if ← look fun d => !d.isDir pages then
    say .warn ("no ".toList ++ Failure.quote Route.pagesDir ++
      " directory, route table not generated".toList)
    return .noPages
  match ← look fun d => Route.Scan.run ⟨d, output, markersOf c⟩ pages with
  | .error (dir, cause) =>
    let f := Failure.unscanned dir cause
    say .error f.message
    return .failed f
  | .ok routes =>
    if routes.isEmpty then
      say .warn ("no ".toList ++ Failure.quote c.pageMarker ++ " under ".toList ++
        Failure.quote pages.text ++ ", route table not generated".toList)
      return .noRoutes
    match ← (emit output c.build.moduleExt routes).attempt with
    | .ok table =>
      say .routes (Text.ofNat routes.length ++ " routes -> ".toList ++ table.text)
      return .emitted routes.length
    | .error f =>
      say .error f.headline
      return .failed f

end Quire.Build
