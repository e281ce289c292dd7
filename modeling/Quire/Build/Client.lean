import Quire.Build.Job
import Quire.Build.Source
import Quire.Interchange.Entry
import Quire.Tool.Program

/-!
What the browser gets: an entry script with the list of all references, and the bundle that a tool
makes of it. A build without references has neither.
-/

namespace Quire.Build

/-- The file of the entry script. -/
def entryFile : Text := "client-entry.js".toList

/-- The file of the bundle. -/
def bundleFile : Text := "client.js".toList

/-- What came of the bundle. -/
inductive Bundle
  | built
  /-- The bundler is not there or did not start. -/
  | unavailable (command : Text)
  /-- The bundler ran and did not succeed. -/
  | failed (status : Tool.Status) (diagnostics : Text)
deriving DecidableEq

/-- What came of the entry script. -/
inductive Manifest
  | empty
  /-- It was written, and bundled unless that is not wanted. -/
  | written (entry : Path) (bundle : Option Bundle)

/-- What a bundle is, given how its tool ended. -/
def Bundle.ofOutput (o : Tool.Output) : Bundle :=
  if o.status.isSuccess then .built else .failed o.status o.diagnostics

/-- The arguments that ask a bundler for a bundle. -/
def bundleArguments (minify : Bool) (entry outfile : Path) : List Text :=
  [entry.text, "--bundle".toList, "--format=esm".toList, "--outfile=".toList ++ outfile.text,
    if minify then "--minify".toList else []].filter (· ≠ [])

/-- Runs a command from a directory and waits for its end. -/
def runTool (dir : Option Path) (command : List Text) (args : List Text) : Job Tool.Output := do
  match command with
  | [] => fail .noCommand
  | program :: first =>
    let w ← get
    match Tool.start w.disk dir program (first ++ args) with
    | .error e => fail (.notStarted program e)
    | .ok (output, after) =>
      set { w with disk := after }
      return output

/-- Bundles an entry script. -/
def bundle (b : Config.Bundler) (root entry outfile : Path) : Job Bundle := do
  match b.command with
  | [] => return .unavailable []
  | program :: _ =>
    if Tool.isAvailable (← get).disk program then
      match ← (runTool root b.command (bundleArguments b.minify entry outfile)).attempt with
      | .ok output => return .ofOutput output
      | .error _ => return .unavailable program
    else return .unavailable program

/-- The entry script of the given references. -/
def entryScript (references : List Reference) : Except Nat Text :=
  Interchange.renderEntry Interchange.clientScript (Interchange.listOf references).render

/-- Writes the entry script of the given references, if there are any, and bundles it. -/
def writeManifest (b : Config.Bundler) (output : Path) (references : List Reference) :
    Job Manifest := do
  if references.isEmpty then return .empty
  let script ← orFail .tokenCount (entryScript references)
  let dir := output.join clientDir
  let entry := dir.child entryFile
  change (Disk.makeDirs dir) (.notMade dir)
  change (.ofWhole (·.writeText entry script)) (.notWritten entry)
  if b.enable then
    return .written entry (some (← bundle b output entry (dir.child bundleFile)))
  else return .written entry none

/-- Tells what came of the bundle. -/
def Bundle.report (file : Path) : Bundle → Job Unit
  | .built => say .bundle file.text
  | .unavailable command =>
    say .warn ("bundler ".toList ++ Failure.quote command ++
      " not available, client bundle not built".toList)
  | .failed status diagnostics =>
    let ending := "bundler failed (".toList ++ status.message ++ [')']
    say .warn (if diagnostics = [] then ending else ending ++ ":\n".toList ++ diagnostics)

/-- Tells what came of the entry script. -/
def Manifest.report (output : Path) (references : List Reference) : Manifest → Job Unit
  | .empty => say .manifest "no client components".toList
  | .written entry made => do
    references.forM fun r =>
      detail .manifest (r.name ++ " (".toList ++ r.id ++ ") -> ".toList ++ r.importPath)
    say .manifest (Text.ofNat references.length ++ " client components -> ".toList ++ entry.text)
    match made with
    | some b => b.report ((output.join clientDir).child bundleFile)
    | none => return

end Quire.Build
