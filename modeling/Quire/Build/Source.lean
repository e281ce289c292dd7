import Quire.Build.Job
import Quire.Interchange.Reference
import Quire.Path.Algebra
import Quire.Path.Extension
import Quire.Template.Module

/-!
The sources of a build: where the module of a template goes, what its islands refer to, and how it
is written. A template that fails leaves nothing behind, neither a file nor a reference.
-/

namespace Quire.Build

/-- What all templates of one build share: the root that references are seen from, and the
extensions. -/
structure Pass where
  root : Path
  ext : Template.Extensions

/-- What a template gives: a module with the references of its islands, or nothing, because it is
for the browser alone. -/
inductive Outcome
  | module (code : Text) (references : List Reference)
  | clientOnly
deriving DecidableEq

/-- The part of the output that the browser loads from. -/
def clientDir : Path := ⟨"assets".toList⟩

/-- The path with another extension, if that may be one. -/
def withExtension (p : Path) (ext : Text) : Except Stop Path :=
  if Path.isExtension ext then .ok (p.withExtension ext) else .error (.badExtension ext)

/-- Where the module of a template goes: to the same place below the output root. -/
def Pass.outputPath (p : Pass) (relative outputRoot : Path) : Except Stop Path :=
  withExtension (outputRoot.join relative) p.ext.module

/-- The id of a template's module: its path seen from the root, without extension. -/
def Pass.moduleId (p : Pass) (src : Path) : Text :=
  (p.root.relativize (src.withExtension [])).slashed

/-- Where the module of a source is, seen from the output root, given where the source is, seen
from the source root. What is no template is its own module. -/
def Pass.importPath (p : Pass) (source : Path) : Except Stop Path :=
  if source.extension? = some p.ext.template then withExtension source p.ext.module else .ok source

/-- The reference of an island in a template of the given directory. -/
def Pass.reference (p : Pass) (dir : Path) (i : Template.Island) : Except Stop Reference := do
  let source := p.root.relativize (dir.resolve ⟨i.path⟩)
  let module ← p.importPath source
  return {
    id := i.id
    name := i.name
    sourcePath := source.slashed
    importPath := module.slashed
    importExpr := Interchange.lazyImport (clientDir.relativize module).specifier }

/-- The directory of a template. -/
def Pass.dirOf (p : Pass) (src : Path) : Path := src.parent?.getD p.root

/-- What a template gives whose text is known. -/
def Pass.outcomeOf (p : Pass) (src : Path) (text : Text) : Except Stop Outcome :=
  if Template.hasClientDirective text then .ok .clientOnly
  else
    match Template.compile p.ext (p.moduleId src) text with
    | .error f => .error (.failure (.source (.template src f)))
    | .ok m => do return .module m.code (← m.islands.mapM (p.reference (p.dirOf src)))

/-- What a template gives. -/
def Pass.outcome (p : Pass) (d : Disk) (src : Path) : Except Stop Outcome :=
  match d.readText src with
  | .error e => .error (.failure (.source (.disk src e)))
  | .ok text => p.outcomeOf src text

/-- Writes the module of a template, if it gives one, and the directories above that. -/
def Pass.transpile (p : Pass) (src dst : Path) : Job Outcome := do
  let outcome ← p.outcome (← look id) src
  match outcome with
  | .clientOnly => return outcome
  | .module code _ =>
    change (Disk.makeParents dst) fun e => .source (.disk (dst.parent?.getD dst) e)
    change (.ofWhole (·.writeText dst code)) fun e => .source (.disk dst e)
    return outcome

/-- The references that an outcome brings. -/
def Outcome.references : Outcome → List Reference
  | .module _ references => references
  | .clientOnly => []

/-- One source to transpile: in memory alone, or into a file. -/
structure Errand where
  pass : Pass
  src : Path
  dst : Option Path := none

/-- What an errand gives. -/
def Errand.job (e : Errand) : Job Outcome :=
  match e.dst with
  | none => do e.pass.outcome (← look id) e.src
  | some dst => e.pass.transpile e.src dst

/-- Runs an errand and puts its references behind those that are listed, once all of it is done. -/
def Errand.run (e : Errand) (listed : List Reference) :
    Job (Except Failure Outcome × List Reference) := do
  match ← e.job.attempt with
  | .error f => return (.error f, listed)
  | .ok outcome => return (.ok outcome, listed ++ outcome.references)

end Quire.Build
