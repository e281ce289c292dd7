import Quire.Disk.Directory
import Quire.Path.Algebra
import Quire.Path.Extension
import Quire.Route.Table

/-!
Finding the routes of an output tree. One visitor goes through the directories, parents first and
siblings in the order of their names, and carries a stack of the layouts that it is below, each with
the depth where it was found. A directory is routed if it holds a page, with the layout that is on
the top of the stack if that was found at the same depth. A directory that cannot be listed ends the
scan.
-/

namespace Quire.Route

/-- The files that make a directory a route and that give it a layout. -/
structure Markers where
  page : Text
  layout : Text

/-- What is looked for: the disk, the root that references are seen from, and the markers. -/
structure Scan where
  disk : Disk
  outputRoot : Path
  markers : Markers

namespace Scan

variable (s : Scan)

/-- The reference of a file: its path seen from the output root, without extension. -/
def reference (dir : Path) (marker : Text) : Text :=
  (s.outputRoot.relativize ((dir.child marker).withExtension [])).slashed

/-- The address of a directory. -/
def address (segments : List Text) : Text := '/' :: ['/'].intercalate segments

/-- Where a scan stands and what it has found: the names that lead to its directory, the layouts of
the directories that it is in, each with the depth of its directory and the innermost last, and the
routes so far. -/
structure State where
  segments : Array Text
  layouts : Array (Nat × Text)
  routes : Array Route
deriving DecidableEq

namespace State

/-- Where a scan begins. -/
def start : State := ⟨#[], #[], #[]⟩

/-- The depth of the directory that the scan is in. -/
def depth (st : State) : Nat := st.segments.size

/-- The scan one directory further down. -/
def enter (st : State) (name : Text) : State := { st with segments := st.segments.push name }

/-- The scan back in the directory above. -/
def leave (st : State) : State := { st with segments := st.segments.pop }

/-- Binds a layout to the directory that the scan is in. -/
def pushLayout (st : State) (layout : Text) : State :=
  { st with layouts := st.layouts.push (st.depth, layout) }

/-- Takes the innermost layout away. -/
def popLayout (st : State) : State := { st with layouts := st.layouts.pop }

/-- The layout that is bound at a depth: the innermost one, if it was bound there. -/
def layoutAt (st : State) (depth : Nat) : Option Text :=
  (st.layouts.back?.filter fun (bound, _) => bound = depth).map Prod.snd

/-- Adds the route of the directory that the scan is in. -/
def addRoute (st : State) (page : Text) : State :=
  { st with routes := st.routes.push ⟨address st.segments.toList, page, st.layoutAt st.depth⟩ }

end State

/-- A directory that cannot be listed, and why. -/
def unlisted? (dir : Path) : Option (Path × Disk.Fault) :=
  match s.disk.listing dir with
  | .error cause => some (dir, cause)
  | .ok _ => none

mutual

/-- Looks at a directory, which is given as it stands in the tree, and at all below it. -/
def visit (dir : Path) : Disk.Node → State → Except (Path × Disk.Fault) State
  | .file _, st => .ok st
  | .link _, st => .ok st
  | .sink, st => .ok st
  | .dir children, st =>
    let pushed := s.disk.isFile (dir.child s.markers.layout)
    let st := if pushed then st.pushLayout (s.reference dir s.markers.layout) else st
    let routed := s.disk.isFile (dir.child s.markers.page)
    let st := if routed then st.addRoute (s.reference dir s.markers.page) else st
    match s.unlisted? dir with
    | some unlisted => .error unlisted
    | none => (visitBelow dir children st).map fun st => if pushed then st.popLayout else st
termination_by structural n => n

/-- Looks at those children of a directory that are directories themselves. -/
def visitBelow (dir : Path) :
    List (Text × Disk.Node) → State → Except (Path × Disk.Fault) State
  | [], st => .ok st
  | (name, n) :: rest, st =>
    if n.kind = .dir then
      (visit (dir.child name) n (st.enter name.shown)).bind fun st => visitBelow dir rest st.leave
    else visitBelow dir rest st
termination_by structural children => children

end

/-- Looks at all directories at and below one; finds nothing if there is none. What was found is
lost if one of them cannot be listed. -/
def run (pages : Path) : Except (Path × Disk.Fault) (List Route) :=
  match s.disk.node? pages with
  | .error _ => .ok []
  | .ok n =>
    if n.kind = .dir then (s.visit pages n .start).map fun st => st.routes.toList else .ok []

end Scan

end Quire.Route
