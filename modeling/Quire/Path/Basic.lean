import Quire.Text.Lossy

/-!
Paths as they are spelled, and the steps they are made of. A path keeps its text, because messages
show it; two spellings that differ only in repeated slashes, a final slash or inner dots have the
same steps. Names are texts here, so that what is shown of one is the name itself: names whose bytes
are no UTF-8, which would be shown with replacement characters, are left out.
-/

namespace Quire

/-- A path, as it is written. -/
structure Path where
  text : Text
deriving DecidableEq

namespace Path

/-- One step of a path: to the root, to where one already is, to the parent, or down to a name. -/
inductive Step
  | root
  | here
  | up
  | name (name : Text)
deriving DecidableEq

/-- The text of a step. -/
def Step.text : Step → Text
  | .root => ['/']
  | .here => ['.']
  | .up => ['.', '.']
  | .name n => n

/-- The step that a stretch between slashes stands for. Empty stretches and single dots lead
nowhere. -/
def Step.ofField? (field : Text) : Option Step :=
  if field = [] ∨ field = ['.'] then none
  else if field = ['.', '.'] then some .up
  else some (.name field)

/-- Whether the path starts at the root. -/
def isAbsolute (p : Path) : Bool := p.text.head? = some '/'

/-- The stretches between the slashes. -/
def fields (p : Path) : List Text := p.text.fields '/'

/-- The steps of the path. A single dot counts only where a relative path begins. -/
def steps (p : Path) : List Step :=
  let inner := p.fields.filterMap Step.ofField?
  if p.isAbsolute then .root :: inner
  else if p.fields.head? = some ['.'] then .here :: inner
  else inner

/-- One path continued by another; an absolute one starts over. -/
def join (p q : Path) : Path :=
  if q.isAbsolute then q
  else if p.text = [] ∨ p.text.getLast? = some '/' then ⟨p.text ++ q.text⟩
  else ⟨p.text ++ '/' :: q.text⟩

/-- The path continued by one name. -/
def child (p : Path) (name : Text) : Path := p.join ⟨name⟩

/-- The path that takes the given steps. -/
def ofSteps (steps : List Step) : Path := steps.foldl (fun p s => p.child s.text) ⟨[]⟩

/-- The absolute path that goes down the given names from the root. -/
def ofNames (names : List Text) : Path := ofSteps (.root :: names.map .name)

/-- Whether two paths take the same steps. -/
def sameSteps (p q : Path) : Bool := p.steps = q.steps

/-- A stretch that leads nowhere. -/
def isIdle (field : Text) : Bool := field = [] || field = ['.']

/-- The path without its last step, its own end cleared of what leads nowhere. The root and the
empty path have no parent. -/
def parent? (p : Path) : Option Path :=
  match p.fields.reverse.dropWhile isIdle with
  | [] =>
    if p.isAbsolute then none
    else if p.fields.head? = some ['.'] then some ⟨[]⟩
    else none
  | _ :: front =>
    match (front.dropWhile isIdle).reverse with
    | [] =>
      if p.isAbsolute then some ⟨['/']⟩
      else if p.fields.head? = some ['.'] then some ⟨['.']⟩
      else some ⟨[]⟩
    | kept => some ⟨['/'].intercalate kept⟩

/-- The path and the paths above it, nearest first, without the root and the empty path. -/
def ancestry (p : Path) : List Path := climb p.steps.length p
where
  /-- At most so many paths, each the parent of the one before. -/
  climb : Nat → Path → List Path
    | 0, _ => []
    | n + 1, p =>
      match p.parent? with
      | none => []
      | some above => p :: climb n above

/-- What is written before the last name, and the last name. There is none when the path ends in
a step to the parent or takes no step down at all. -/
def splitName? (p : Path) : Option (Text × Text) :=
  match p.fields.reverse.dropWhile isIdle with
  | [] => none
  | last :: front =>
    if last = ['.', '.'] then none
    else some (front.reverse.flatMap (· ++ ['/']), last)

/-- The last name of the path. -/
def fileName? (p : Path) : Option Text := p.splitName?.map (·.2)

/-- The steps as they are shown, joined by slashes. -/
def slashed (p : Path) : Text := ['/'].intercalate (p.steps.map fun s => s.text.shown)

/-- The path as scripts import it: it begins with a step to the parent, or with a dot. -/
def specifier (p : Path) : Text :=
  let t := p.slashed
  if "../".toList.isPrefixOf t ∨ t = "..".toList then t else "./".toList ++ t

example : (⟨"/a//./b/".toList⟩ : Path).steps =
    [.root, .name "a".toList, .name "b".toList] := by decide
example : (⟨"./a/..".toList⟩ : Path).steps = [.here, .name "a".toList, .up] := by decide
example : (⟨"/a//b/./c/".toList⟩ : Path).parent? = some ⟨"/a//b".toList⟩ := by decide

end Path

end Quire
