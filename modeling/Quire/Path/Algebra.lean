import Quire.Path.Basic

/-!
Path algebra: normal forms, one path seen from another, and what lies below what. Nothing here
looks at a file; all of it is about the steps that paths take.
-/

namespace Quire.Path

/-- Takes one more step from a place that is reached by the given steps, the last of them first.
A step to the parent undoes a step down, and does nothing at the root. -/
def takeStep (taken : List Step) : Step → List Step
  | .here => taken
  | .up =>
    match taken with
    | .name _ :: rest => rest
    | .root :: _ => taken
    | _ => .up :: taken
  | step => step :: taken

/-- The steps with every detour taken out. -/
def reduce (steps : List Step) : List Step := (steps.foldl takeStep []).reverse

/-- The normal form: no detours, and a single dot where nothing is left. -/
def normalize (p : Path) : Path :=
  match reduce p.steps with
  | [] => ⟨['.']⟩
  | steps => ofSteps steps

/-- What a path means seen from a directory. An absolute path is kept as it is written. -/
def resolve (base p : Path) : Path := if p.isAbsolute then p else normalize (base.join p)

/-- The length of the longest common beginning of two lists. -/
def commonLength [DecidableEq α] : List α → List α → Nat
  | a :: as, b :: bs => if a = b then commonLength as bs + 1 else 0
  | _, _ => 0

/-- The way from one path to another: up out of what they do not share, then down. Paths of one
normal form are a single dot apart. -/
def relativize (base target : Path) : Path :=
  let from' := (normalize base).steps
  let goal := (normalize target).steps
  let shared := commonLength from' goal
  let way := ofSteps (List.replicate (from'.length - shared) .up ++ goal.drop shared)
  if way.text = [] then ⟨['.']⟩ else way

/-- The rest of the candidate below the directory, if it lies strictly below. -/
def containment (dir candidate : Path) : Option Path :=
  match (normalize dir).steps.isPrefixOf? (normalize candidate).steps with
  | some (step :: rest) => some (ofSteps (step :: rest))
  | _ => none

/-- Whether a path is the directory itself or lies below it. -/
def isWithin (dir p : Path) : Bool := p.sameSteps dir || (containment dir p).isSome

example : (normalize ⟨"/a/./b/../c/".toList⟩).text = "/a/c".toList := by decide
example : (normalize ⟨"a/../..".toList⟩).text = "..".toList := by decide
example : (relativize ⟨"/a/b/c/d".toList⟩ ⟨"/a/x/y".toList⟩).text = "../../../x/y".toList := by
  decide
example : (relativize ⟨"/a/b/".toList⟩ ⟨"/a/./b".toList⟩).text = ".".toList := by decide
example : (containment ⟨"/in/.out".toList⟩ ⟨"/in/.outside/a".toList⟩) = none := by decide

end Quire.Path
