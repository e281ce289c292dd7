import Quire.Disk.File

/-!
Making, listing and removing directories. What was done before a failure stays done.
-/

namespace Quire.Disk

/-- A change of the disk that may fail, and that may have changed something when it fails. -/
abbrev Change := Disk → Except Fault Unit × Disk

/-- A change that does all or nothing. -/
def Change.ofWhole (change : Disk → Except Fault Disk) : Change := fun d =>
  match change d with
  | .ok after => (.ok (), after)
  | .error e => (.error e, d)

/-- One change and, if it succeeds, another. -/
def Change.andThen (first second : Change) : Change := fun d =>
  match first d with
  | (.ok (), after) => second after
  | failed => failed

/-- The disk after a directory was made. -/
def makeDir (d : Disk) (p : Path) : Except Fault Disk := do
  checkPath p
  match splitEnding p with
  | (front, .name n _) =>
    let dir ← d.reach front
    match ← lookUp n (← childrenAt d.root dir) with
    | some _ => .error .exists
    | none => return d.put (dir ++ [n]) (some (.dir []))
  | (steps, _) =>
    let _ ← d.reach steps
    .error .exists

/-- Whether making the directory failed because it is there. -/
def isThere (d : Disk) (p : Path) (e : Fault) : Bool := e = .exists && d.isDir p

/-- Goes up the given paths, each the parent of the one before, to the first that is a directory or
can be made one. The paths passed by are given outermost first. -/
def makeNearest (d : Disk) (passed : List Path) : List Path → Except Fault (List Path × Disk)
  | [] => .ok (passed, d)
  | p :: above =>
    match d.makeDir p with
    | .ok after => .ok (passed, after)
    | .error e =>
      if e = .notFound then makeNearest d (p :: passed) above
      else if d.isThere p e then .ok (passed, d)
      else .error e

/-- Makes directories one after the other; those that are there do no harm. -/
def makeEach : List Path → Change
  | [] => fun d => (.ok (), d)
  | p :: rest => fun d =>
    match d.makeDir p with
    | .ok after => makeEach rest after
    | .error e => if d.isThere p e then makeEach rest d else (.error e, d)

/-- Makes a directory and those above it that are missing. -/
def makeDirs (p : Path) : Change := fun d =>
  match d.makeNearest [] p.ancestry with
  | .ok (missing, after) => makeEach missing after
  | .error e => (.error e, d)

/-- Makes the directories that lead to a path, if it has a parent at all. -/
def makeParents (p : Path) : Change :=
  match p.parent? with
  | some above => makeDirs above
  | none => fun d => (.ok (), d)

/-- Copies a file, after the directories that lead to the copy were made. -/
def copyInto (source dest : Path) : Change :=
  (makeParents dest).andThen (.ofWhole (·.copy source dest))

/-- The names in a directory and what they are, in the order of the names. -/
def listing (d : Disk) (p : Path) : Except Fault (List (Text × Kind)) := do
  let children ← childrenAt d.root (← d.place? p)
  return children.map fun (name, n) => (name, n.kind)

/-- The disk after a link was made. What it stands for has to be a path, whether or not it leads
anywhere. -/
def makeLink (d : Disk) (p : Path) (path : Text) : Except Fault Disk := do
  checkPath ⟨path⟩
  checkPath p
  match splitEnding p with
  | (front, .name n slash) =>
    let dir ← d.reach front
    match ← lookUp n (← childrenAt d.root dir) with
    | some _ => .error .exists
    | none => if slash then .error .notFound else return d.put (dir ++ [n]) (some (.link path))
  | (steps, _) =>
    let _ ← d.reach steps
    .error .exists

/-- The disk after an empty directory was taken away. One that is gone already does no harm. -/
def removeEmpty (d : Disk) (p : Path) : Except Fault Disk :=
  let removed : Except Fault Disk := do
    match splitEnding p with
    | (front, .name n _) =>
      let dir ← d.reach front
      match ← lookUp n (← childrenAt d.root dir) with
      | some (.dir _) => return d.put (dir ++ [n]) none
      | some _ => .error .notDirectory
      | none => .error .notFound
    | (steps, ending) =>
      let _ ← d.reach steps
      match ending with
      | .here => .error .invalid
      | .up => .error .notEmpty
      | _ => .error .busy
  match removed with
  | .error .notFound => .ok d
  | other => other

/-- The disk after the last name of a path was taken out of its directory. -/
def removeEntry (d : Disk) (p : Path) : Except Fault Disk := do
  match splitEnding p with
  | (front, .name n _) => return d.put ((← d.reach front) ++ [n]) none
  | _ => .error .isDirectory

/-- Takes away what a path names: a directory with all that is in it, or a link and not what it
stands for. -/
def removeAll (p : Path) : Change := fun d =>
  match d.nodeItself? p, d.place? p with
  | .error e, _ => (.error e, d)
  | .ok (.file _), _ => (.error .notDirectory, d)
  | .ok .sink, _ => (.error .notDirectory, d)
  | .ok (.link _), _ => Change.ofWhole (·.removeEntry p) d
  | .ok (.dir _), .error e => (.error e, d)
  | .ok (.dir _), .ok place => Change.ofWhole (·.removeEmpty p) (d.put place (some (.dir [])))

end Quire.Disk
