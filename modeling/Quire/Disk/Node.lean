import Quire.Text.Basic

/-!
File trees. A place in a tree is the list of the names that lead to it from the root; nothing in
this module follows a link. Names are texts: a tree with a name whose bytes are no UTF-8 is not among
these. Main statements: what stands at a place after something was set there, and at the other
places.
-/

namespace Quire.Disk

/-- A file with its bytes, a link with the path it stands for, a directory with its children in the
order of their names, or the null device, which holds nothing and swallows what is written to it. -/
inductive Node
  | file (bytes : ByteArray)
  | link (target : Text)
  | dir (children : List (Text × Node))
  | sink

/-- The names that lead to a node from the root. -/
abbrev Place := List Text

/-- What is seen of a node in the listing of its directory. -/
inductive Kind
  | file
  | link
  | dir
  | device
deriving DecidableEq

namespace Node

/-- The kind of a node. -/
def kind : Node → Kind
  | .file _ => .file
  | .link _ => .link
  | .dir _ => .dir
  | .sink => .device

/-- The child of the given name. -/
def child? (name : Text) : List (Text × Node) → Option Node
  | [] => none
  | (k, n) :: rest => if k = name then some n else child? name rest

/-- The node at a place below a node. -/
def get? : Place → Node → Option Node
  | [], n => some n
  | name :: rest, .dir children => (child? name children).bind (get? rest)
  | _ :: _, _ => none

/-- The children with another one under the given name, or with none under it. A new name goes in
front of the first greater one. -/
def setChild (name : Text) (new : Option Node) : List (Text × Node) → List (Text × Node)
  | [] => (new.map (name, ·)).toList
  | (k, n) :: rest =>
    if k = name then (new.map (name, ·)).toList ++ rest
    else if name.before k then (new.map (name, ·)).toList ++ (k, n) :: rest
    else (k, n) :: setChild name new rest

/-- The tree with another node at the given place, or with none there. The directories above the
place have to be there; without them nothing changes, and the tree itself cannot be taken away. -/
def set : Place → Option Node → Node → Node
  | [], new, n => new.getD n
  | [name], new, .dir children => .dir (setChild name new children)
  | name :: rest, new, .dir children =>
    match child? name children with
    | some n => .dir (setChild name (some (set rest new n)) children)
    | none => .dir children
  | _ :: _, _, n => n

end Node

end Quire.Disk
