import Quire.Build.Client
import Quire.Build.Tree
import Quire.Build.Routes

/-!
Building: a whole project into an output directory, or a single template. Only an output directory
that cannot be used stops the build of a project; what fails on the way is reported at its end.
-/

namespace Quire.Build

/-- What came of a project. -/
structure Report where
  transpiled : Nat
  clientOnly : Nat
  copied : Nat
  failed : List (Path × Failure)
  routes : RouteStatus
  /-- How many references there are. -/
  components : Nat
  bundle : Option Bundle

/-- Whether nothing failed. A bundle that was not built is no failure. -/
def Report.isSuccess (r : Report) : Bool :=
  r.failed.isEmpty &&
    match r.routes with
    | .failed _ => false
    | _ => true

/-- What a summary says of the routes. -/
def RouteStatus.label : RouteStatus → Text
  | .emitted n => Text.ofNat n
  | .noPages => ['0']
  | .noRoutes => ['0']
  | .failed _ => "failed".toList

/-- What a summary says of the bundle. -/
def bundleLabel : Option Bundle → Text
  | none => "none".toList
  | some .built => "built".toList
  | some _ => "not built".toList

/-- The report on one line. -/
def Report.summary (r : Report) : Text :=
  ", ".toList.intercalate [
    Text.ofNat r.transpiled ++ " transpiled".toList,
    Text.ofNat r.clientOnly ++ " skipped".toList,
    Text.ofNat r.copied ++ " copied".toList,
    Text.ofNat r.failed.length ++ " failed".toList,
    "routes: ".toList ++ r.routes.label,
    "client components: ".toList ++ Text.ofNat r.components,
    "bundle: ".toList ++ bundleLabel r.bundle]

/-- The pass over the templates below a root. -/
def passOf (c : Config) (root : Path) : Pass :=
  ⟨root, ⟨c.build.templateExt, c.build.moduleExt⟩⟩

/-- Builds the project below a directory. -/
def buildProject (c : Config) (source output : Path) : Job Report := do
  if output.isWithin source then fail (.outputHoldsSource output source)
  change (Disk.makeDirs output) (.disk output)
  say .build (source.text ++ " -> ".toList ++ output.text)
  let y ← (passOf c source).takeTree output c.build.copyDirs
  let routes ← emitRoutes c output
  let report : Report :=
    ⟨y.transpiled, y.clientOnly, y.copied, y.failed, routes, y.references.length, none⟩
  match ← (writeManifest c.bundler output y.references).attempt with
  | .ok manifest =>
    manifest.report output y.references
    match manifest with
    | .empty => return report
    | .written _ made => return { report with bundle := made }
  | .error f =>
    say .error f.message
    return { report with failed := report.failed ++ [(output.join clientDir, f)] }

/-- Builds a single template: into a directory, or onto the standard output. -/
def buildTemplate (c : Config) (src : Path) (output : Option Path) : Job Unit := do
  if src.extension? ≠ some c.build.templateExt then
    fail (.wrongExtension src c.build.templateExt)
  let p := passOf c (src.parent?.getD ⟨['.']⟩)
  let notEmitted :=
    say .warn (Failure.quote src.text ++ " is client only, nothing emitted".toList)
  match output with
  | none =>
    match ← p.outcome (← look id) src with
    | .module code _ => display code
    | .clientOnly => notEmitted
  | some dir =>
    let dst ← p.outputPath ⟨src.fileName?.getD []⟩ dir
    match ← p.transpile src dst with
    | .module _ _ => say .build dst.text
    | .clientOnly => notEmitted

/-- Builds what a path names, seen from the working directory. -/
def build (c : Config) (path : Path) (output : Option Path) : Job Unit := do
  let cwd ← orFail .noWorkingDir (← look (·.workingDir))
  let source := cwd.resolve path
  if ← look (·.isFile source) then buildTemplate c source (output.map cwd.resolve)
  else if ← look (·.isDir source) then
    let report ← buildProject c source (cwd.resolve c.build.output)
    say .build report.summary
    if !report.isSuccess then fail .incomplete
  else fail (.nothingAt source)

/-- Removes an output directory, unless the working directory is in it. -/
def clean (path : Path) : Job Unit := do
  let cwd ← orFail .noWorkingDir (← look (·.workingDir))
  let output := cwd.resolve path
  if output.isWithin cwd then fail (.holdsWorkingDir output)
  if ← look (·.has output) then
    change (Disk.removeAll output) (.disk output)
    say .build ("removed ".toList ++ output.text)
  else say .build "nothing to clean".toList

end Quire.Build
