import Quire.Build.Source
import Quire.Build.Verbatim
import Quire.Build.Visit
import Quire.Route.Table

/-!
From a source tree to an output tree: templates become modules, what else lies below a
routed directory is copied, and everything that is in the output already is passed by.
-/

namespace Quire.Build

/-- What came of a source tree so far. -/
structure Yield where
  /-- How many templates were written as modules. -/
  transpiled : Nat := 0
  /-- How many templates are for the browser alone. -/
  clientOnly : Nat := 0
  /-- How many files were copied. -/
  copied : Nat := 0
  /-- What failed, in the order of the visit. -/
  failed : List (Path × Failure) := []
  /-- The references of the modules that were written. -/
  references : List Reference := []

/-- Records a failure and goes on. -/
def Yield.put (y : Yield) (p : Path) (f : Failure) : Job Yield := do
  say .error f.message
  return { y with failed := y.failed ++ [(p, f)] }

/-- Whether a file lies below a routed directory. -/
def isRouted (names : List Text) : Bool := names.dropLast.contains Route.pagesDir

/-- The path that names lead to from a root that is not told. -/
def relativePath (names : List Text) : Path := Path.ofSteps (names.map .name)

/-- Turns a template into its module. -/
def Pass.takeTemplate (p : Pass) (output : Path) (y : Yield) (names : List Text) : Job Yield := do
  let src := below p.root names
  let relative := relativePath names
  let dst ← p.outputPath relative output
  match ← (p.transpile src dst).attempt with
  | .error f => y.put src f
  | .ok (.module _ references) =>
    detail .transpile relative.text
    return { y with
      transpiled := y.transpiled + 1
      references := y.references ++ references }
  | .ok .clientOnly =>
    detail .transpile (relative.text ++ " (client only, skipped)".toList)
    return { y with clientOnly := y.clientOnly + 1 }

/-- Copies a file that accompanies a page. -/
def Pass.takeAsset (p : Pass) (output : Path) (y : Yield) (names : List Text) : Job Yield := do
  let src := below p.root names
  let relative := relativePath names
  match ← (change (Disk.copyInto src (output.join relative)) (.notCopied src)).attempt with
  | .error f => y.put src f
  | .ok () =>
    detail .assets relative.text
    return { y with copied := y.copied + 1 }

/-- Does with a file what its name and place ask for. -/
def Pass.take (p : Pass) (output : Path) (y : Yield) (names : List Text) : Met → Job Yield
  | .unlisted e => y.put (below p.root names) (.unlisted (below p.root names) e)
  | .file =>
    let src := below p.root names
    if isIgnored src then return y
    else if src.extension? = some p.ext.template then p.takeTemplate output y names
    else if isRouted names then p.takeAsset output y names
    else return y

/-- Builds the source tree of a pass, and copies the given directories afterwards. -/
def Pass.takeTree (p : Pass) (output : Path) (copyDirs : List Text) : Job Yield := do
  let visit : Visit Yield := ⟨p.root, output.isWithin, p.take output⟩
  let y ← visit.run {}
  let copied ← copyVerbatim p.root output copyDirs
  return { y with copied := y.copied + copied }

end Quire.Build
