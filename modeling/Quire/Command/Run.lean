import Quire.Build.Project
import Quire.Command.Usage

/-!
Carrying out a command line: the configuration is found, checked and put to work, and what comes of
it is told by the exit code and on the two streams.
-/

namespace Quire.Command

open Build (Job Work Stop look detail orFail fail)

/-- What a command leaves behind. -/
structure Ended where
  code : Nat
  said : Text
  errors : Text
  disk : Disk

/-- The exit code of a command that did what it was asked. -/
def successCode : Nat := 0

/-- The exit code of a command that failed. -/
def failureCode : Nat := 1

/-- The exit code of a command that could not do what it was asked. -/
def structuralCode : Nat := 2

/-- The exit code of a command line that was not understood. -/
def usageCode : Nat := 2

/-- The exit code of a command that had to stop at once. -/
def haltCode : Nat := 101

/-- The exit code of a failure. -/
def codeOf (f : Failure) : Nat := if f.isStructural then structuralCode else failureCode

/-- The output directory that a request names. -/
def Request.output : Request → Option Path
  | .build _ output => output
  | .clean output => output

/-- The configuration in a file. -/
def readConfig (d : Disk) (p : Path) : Except ConfigFailure Config :=
  match d.readText p with
  | .error e => .error (.disk p e)
  | .ok text => (Config.ofText text).mapError .read

/-- The configuration in a file, or what holds where there is none. -/
def configAt (d : Disk) (p : Path) : Except ConfigFailure Config :=
  if d.has p then readConfig d p else .ok {}

/-- The configuration of a command line, checked. -/
def configFor (d : Disk) (line : CommandLine) : Except ConfigFailure Config := do
  let c := (← configAt d line.config).withOutput line.request.output
  (c.validate.mapError .violation).map fun () => c

/-- Carries out a command line. -/
def carryOut (line : CommandLine) : Job Unit := do
  let found ← look (·.has line.config)
  let c ← orFail .config (← look (configFor · line))
  if found then detail .build ("config ".toList ++ line.config.text)
  match line.request with
  | .build path output => Build.build c path output
  | .clean _ => Build.clean c.build.output

/-- Why a command had to stop at once. -/
def haltMessage (ext : Text) : Text :=
  "extension cannot contain path separators: ".toList ++ Text.revealed ext ++ ['\n']

/-- What a job leaves behind that was carried out to its end, or as far as it went. -/
def ending (style : Log.Style) (answer : Except Stop Unit) (w : Work) : Ended :=
  match answer with
  | .ok () => ⟨successCode, w.shown, Log.render style w.log, w.disk⟩
  | .error (.failure f) =>
    ⟨codeOf f, w.shown, Log.render style (w.log ++ [⟨.error, f.message, false⟩]), w.disk⟩
  | .error (.badExtension ext) =>
    ⟨haltCode, w.shown, Log.render style w.log ++ haltMessage ext, w.disk⟩

/-- Runs the program with the given arguments. -/
def run (d : Disk) (colored : Bool) (args : List Text) : Ended :=
  match CommandLine.ofArgs args with
  | .error r =>
    if r.isAnswer then ⟨successCode, r.message, [], d⟩ else ⟨usageCode, [], r.message, d⟩
  | .ok line =>
    let (answer, w) := (carryOut line).run.run { disk := d }
    ending ⟨colored, line.verbose⟩ answer w

end Quire.Command
