import Quire.Disk.Fault
import Quire.Disk.Node
import Quire.Path.Basic

/-!
Finding what a path names on a disk. A path is followed step by step from the working directory;
every link met on the way is replaced by the path it stands for, and a path that ends in a slash or
in a dot names a directory.
-/

namespace Quire

/-- A file tree and the working directory in it. -/
structure Disk where
  root : Disk.Node
  cwd : Disk.Place

namespace Disk

/-- How many links may be met on the way to a file. -/
def maxLinks : Nat := 40

/-- How many bytes a name may have. -/
def maxName : Nat := 255

/-- How many bytes a path may have. -/
def maxPath : Nat := 4095

/-- Whether what the path names has to be a directory. -/
def demandsDir (p : Path) : Bool := p.fields.getLast?.any Path.isIdle

/-- The steps of a path as they are followed on a disk. -/
def stepsTo (p : Path) : List Path.Step := if demandsDir p then p.steps ++ [.here] else p.steps

/-- The children of the directory at a place. -/
def childrenAt (root : Node) (place : Place) : Except Fault (List (Text × Node)) :=
  match root.get? place with
  | some (.dir children) => .ok children
  | some _ => .error .notDirectory
  | none => .error .notFound

/-- What the children of a directory hold under a name. A name that is too long is refused before
it is looked for. -/
def lookUp (name : Text) (children : List (Text × Node)) : Except Fault (Option Node) :=
  if maxName < name.byteSize then .error .nameTooLong else .ok (Node.child? name children)

/-- Follows steps from a place to the place where they end. What to do at a link is given: it is
told the directory that the link is in and the steps that are left with the link's path before
them. Tells also how many links may still be met. -/
def followTo (root : Node) (links : Nat)
    (onLink : Place → List Path.Step → Except Fault (Place × Nat)) :
    Place → List Path.Step → Except Fault (Place × Nat)
  | place, [] => .ok (place, links)
  | _, .root :: rest => followTo root links onLink [] rest
  | place, .here :: rest =>
    match childrenAt root place with
    | .error e => .error e
    | .ok _ => followTo root links onLink place rest
  | place, .up :: rest =>
    match childrenAt root place with
    | .error e => .error e
    | .ok _ => followTo root links onLink place.dropLast rest
  | place, .name n :: rest =>
    match childrenAt root place with
    | .error e => .error e
    | .ok children =>
      match lookUp n children with
      | .error e => .error e
      | .ok none => .error .notFound
      | .ok (some (.link target)) => onLink place (stepsTo ⟨target⟩ ++ rest)
      | .ok (some _) => followTo root links onLink (place ++ [n]) rest

/-- Follows steps from a place, meeting at most so many links. -/
def follow (root : Node) : (links : Nat) → Place → List Path.Step → Except Fault (Place × Nat)
  | 0 => followTo root 0 fun _ _ => .error .tooManyLinks
  | left + 1 => followTo root (left + 1) (follow root left)

theorem le_of_followTo {root : Node} {links left : Nat} {place goal : Place}
    {onLink : Place → List Path.Step → Except Fault (Place × Nat)} {steps : List Path.Step}
    (honLink : ∀ place steps goal left, onLink place steps = .ok (goal, left) → left ≤ links)
    (h : followTo root links onLink place steps = .ok (goal, left)) : left ≤ links := by
  fun_induction followTo root links onLink place steps with
  | case1 => cases h; exact Nat.le_refl _
  | case2 _ _ ih => exact ih h
  | case3 => cases h
  | case4 _ _ _ _ ih => exact ih h
  | case5 => cases h
  | case6 _ _ _ _ ih => exact ih h
  | case7 => cases h
  | case8 => cases h
  | case9 => cases h
  | case10 => exact honLink _ _ _ _ h
  | case11 _ _ _ _ _ _ _ _ ih => exact ih h

theorem le_of_follow {root : Node} {links left : Nat} {place goal : Place}
    {steps : List Path.Step} (h : follow root links place steps = .ok (goal, left)) :
    left ≤ links := by
  induction links generalizing place steps goal left with
  | zero => exact le_of_followTo (fun _ _ _ _ hlink => by cases hlink) h
  | succ links ih => exact le_of_followTo (fun _ _ _ _ hlink => Nat.le_succ_of_le (ih hlink)) h

/-- The place where steps from the working directory end. -/
def reach (d : Disk) (steps : List Path.Step) : Except Fault Place :=
  (follow d.root maxLinks d.cwd steps).map (·.1)

/-- What a path ends in: a name, and whether a slash follows it, or a step that takes none. -/
inductive Ending
  | name (n : Text) (slash : Bool)
  | here
  | up
  | root
deriving DecidableEq

/-- The steps before the last one, and what the path ends in. Before an ending that is no name
stand all steps of the path. -/
def splitEnding (p : Path) : List Path.Step × Ending :=
  match p.fields.reverse.dropWhile (· = []) with
  | [] => (p.steps, .root)
  | ['.'] :: _ => (p.steps ++ [.here], .here)
  | ['.', '.'] :: _ => (p.steps, .up)
  | last :: _ => (p.steps.dropLast, .name last (p.text.getLast? = some '/'))

/-- Refuses what is no path of a file at all. -/
def checkPath (p : Path) : Except Fault Unit :=
  if p.text.contains '\x00' then .error .nulInName
  else if p.text = [] then .error .notFound
  else if maxPath < p.text.byteSize then .error .nameTooLong
  else .ok ()

/-- The place that a path names, links followed to the end. -/
def place? (d : Disk) (p : Path) : Except Fault Place := do
  checkPath p
  d.reach (stepsTo p)

/-- The node that a path names, links followed to the end. -/
def node? (d : Disk) (p : Path) : Except Fault Node := do
  let place ← d.place? p
  match d.root.get? place with
  | some n => .ok n
  | none => .error .notFound

/-- The node that a path names, which may be a link. -/
def nodeItself? (d : Disk) (p : Path) : Except Fault Node := do
  checkPath p
  match splitEnding p with
  | (front, .name n false) =>
    match ← lookUp n (← childrenAt d.root (← d.reach front)) with
    | some node => .ok node
    | none => .error .notFound
  | _ => d.node? p

/-- Whether a path names something, links followed. -/
def has (d : Disk) (p : Path) : Bool := (d.node? p).toOption.isSome

/-- Whether a path names a file, links followed. -/
def isFile (d : Disk) (p : Path) : Bool := (d.node? p).toOption.any (·.kind = .file)

/-- Whether a path names a directory, links followed. -/
def isDir (d : Disk) (p : Path) : Bool := (d.node? p).toOption.any (·.kind = .dir)

/-- The working directory as a path, if it is still there. -/
def workingDir (d : Disk) : Except Fault Path :=
  match childrenAt d.root d.cwd with
  | .ok _ => .ok (Path.ofNames d.cwd)
  | .error _ => .error .notFound

end Disk

end Quire
