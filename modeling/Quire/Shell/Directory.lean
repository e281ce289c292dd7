import Quire.Shell.Options

/-!
The working directory of a shell. It is known by the way it was come to, links included, as well as
by its place on the disk.
-/

namespace Quire.Shell

namespace Directory

/-- The working directory, without links. -/
def physical (s : State) : Text := spread (Path.ofNames s.cwd).text

/-- The steps of a path that are not idle. -/
def steps (path : Text) : List Text := (Text.fields '/' path).filter fun f => f ≠ [] ∧ f ≠ ['.']

/-- The steps behind others, in the reverse order, when each step upwards takes one back. -/
def walk (back : List Text) (steps : List Text) : List Text :=
  steps.foldl (fun back step => if step = ['.', '.'] then back.tail else step :: back) back

/-- Where a path leads by its text alone. Two slashes in front stay, other numbers of them are
one. -/
def resolved (place path : Text) : Text :=
  let start (t : Text) : Text :=
    match t with
    | '/' :: '/' :: '/' :: _ => ['/']
    | '/' :: '/' :: _ => ['/', '/']
    | _ => ['/']
  let isAbsolute := path.head? = some '/'
  let front := start (if isAbsolute then path else place)
  let from' := if isAbsolute then [] else walk [] (steps place)
  front ++ ['/'].intercalate (walk from' (steps path)).reverse

/-- Makes a place the working directory. -/
def enter (place : Disk.Place) (known : Option Text) : Does Unit := do
  let before := (← get).place
  modify fun s => { s with cwd := place }
  let path := known.getD (physical (← get))
  let give (name value : Text) : Does Unit := do
    store name value
    modify fun s =>
      let v := (s.bindings.lookup name).getD {}
      { s with bindings := withVariable name (some { v with exported := true }) s.bindings }
  give (lit "OLDPWD") before
  modify fun s => { s with place := path }
  give (lit "PWD") path

/-- Goes to the directory that a path names, if it names one. -/
def go (isPhysical : Bool) (path : Text) : Does Bool := do
  let s ← get
  let known := if isPhysical then none else some (resolved s.place path)
  match s.disk.place? (pathOf (known.getD path)) with
  | .ok place =>
    match Disk.childrenAt s.world.root place with
    | .ok _ =>
      enter place known
      return true
    | .error _ => return false
  | .error _ => return false

/-- Whether a path is looked for only where it says. -/
def isFixed (path : Text) : Bool :=
  path.head? = some '/' ||
    match (Text.fields '/' path).head? with
    | some first => first = ['.'] || first = ['.', '.']
    | none => false

/-- The paths under which a directory is looked for, and whether to tell where it was found. -/
def candidates (s : State) (path : Text) : List (Text × Bool) :=
  let direct := [(path, false)]
  if isFixed path then direct
  else
    match s.value? (lit "CDPATH") with
    | none => direct
    | some dirs =>
      (Text.fields ':' dirs).map (fun dir =>
        if dir = [] then (path, false) else (dir ++ '/' :: path, true)) ++ direct

/-- Whether links are left aside, as the last option says. -/
def isPhysical (words : List Text) : Does (Bool × List Text) := do
  let (options, rest) ← Options.plain "LP" words
  return (options.getLast? = some 'P', rest)

/-- Goes to another directory. -/
def change (words : List Text) : Does Nat := do
  let (isPhysical, rest) ← isPhysical words
  let s ← get
  let isBack := rest.head? = some ['-']
  let dest :=
    match rest with
    | [] => (s.value? (lit "HOME")).getD []
    | ['-'] :: _ => (s.value? (lit "OLDPWD")).getD []
    | path :: _ => path
  let path := if dest = [] then ['.'] else dest
  let isThere (found : Text × Bool) : Bool := s.disk.isDir (pathOf found.1)
  let (goal, tells) := ((candidates s path).find? isThere).getD (dest, false)
  if ← go isPhysical goal then
    if isBack ∨ tells then say ((← get).place ++ ['\n'])
    return 0
  else giveUp (lit "can't cd to " ++ dest)

/-- Tells the working directory. -/
def tell (words : List Text) : Does Nat := do
  let (isPhysical, _) ← isPhysical words
  let s ← get
  say ((if isPhysical then physical s else s.place) ++ ['\n'])
  return 0

end Directory

end Quire.Shell
