import Quire.Config.Decode
import Quire.Disk.Fault
import Quire.Interchange.Entry
import Quire.Template.Fault

/-!
Everything that can go wrong while a project is built, and how it is told. A failure with a cause is
told with its cause behind it.
-/

namespace Quire

/-- Why the route table is not written: a route names a module that is not there, or the table is no
script. -/
inductive TableFault
  | missing (route : Text) (file : Path)
  | noScript
deriving DecidableEq

/-- Why a template gives no module. -/
inductive SourceFailure
  | disk (path : Path) (cause : Disk.Fault)
  | template (path : Path) (fault : Template.Fault)
deriving DecidableEq

/-- Why there is no configuration. -/
inductive ConfigFailure
  | disk (path : Path) (cause : Disk.Fault)
  | read (e : Config.ReadError)
  | violation (v : Config.Violation)

/-- The ways in which a command fails. -/
inductive Failure
  | source (f : SourceFailure)
  | config (f : ConfigFailure)
  /-- A single file is built that is no template. -/
  | wrongExtension (path : Path) (expected : Text)
  /-- Nothing is there to build. -/
  | nothingAt (path : Path)
  | table (path : Path) (fault : TableFault)
  | disk (path : Path) (cause : Disk.Fault)
  /-- The files below a directory cannot be seen. -/
  | unlisted (path : Path) (cause : Disk.Fault)
  /-- A directory cannot be searched for routes. -/
  | unscanned (path : Path) (cause : Disk.Fault)
  | notCopied (path : Path) (cause : Disk.Fault)
  | notMade (path : Path) (cause : Disk.Fault)
  | notWritten (path : Path) (cause : Disk.Fault)
  /-- The client script does not hold its token once. -/
  | tokenCount (count : Nat)
  | outputHoldsSource (output source : Path)
  | holdsWorkingDir (path : Path)
  | noWorkingDir (cause : Disk.Fault)
  | noCommand
  | notStarted (program : Text) (cause : Disk.Fault)
  /-- A build ended, and some of its files or steps failed. -/
  | incomplete

namespace Failure

/-- A text between the marks that set names off. -/
abbrev quote (t : Text) : Text := Template.marked t

/-- What went wrong, and why. -/
def because (what cause : Text) : Text := what ++ ": ".toList ++ cause

/-- That a file could not be used. -/
def onDisk (path : Path) : Text := "IO error on ".toList ++ quote path.text

/-- That what is below a directory could not be seen, and why. -/
def onVisit (path : Path) (cause : Disk.Fault) : Text :=
  because ("IO error for operation on ".toList ++ path.text) cause.message

/-- That a configuration file could not be read. -/
def onConfig (path : Path) : Text := "cannot read config ".toList ++ quote path.text

/-- That a configuration file is no good, and why. -/
def inConfig (cause : Text) : Text := because "invalid pagewright.toml".toList cause

/-- That a template is no good, and why. -/
def inTemplate (path : Path) (fault : Text) : Text :=
  because ("syntax error in ".toList ++ quote path.text) fault

/-- That a generated file is no good, and why. -/
def inGenerated (path : Path) (cause : Text) : Text :=
  because ("generated ".toList ++ quote path.text ++ " failed validation".toList) cause

/-- That a bundler or another tool did not start. -/
def onStart (program : Text) : Text := "Failed to execute ".toList ++ quote program

end Failure

/-- The wording of a fault of the route table. -/
def TableFault.message : TableFault → Text
  | .missing route file =>
    "route ".toList ++ Failure.quote route ++ " imports missing ".toList ++ Failure.quote file.text
  | .noScript => "syntax error".toList

/-- The wording of a template's failure. -/
def SourceFailure.message : SourceFailure → Text
  | .disk path cause => Failure.because (Failure.onDisk path) cause.message
  | .template path fault => Failure.inTemplate path fault.message

/-- The wording of a configuration's failure. A misfit is told in full and then again as the
cause. -/
def ConfigFailure.message : ConfigFailure → Text
  | .disk path cause => Failure.because (Failure.onConfig path) cause.message
  | .read (.misfit source m) =>
    Failure.because (Failure.inConfig (m.message source)) (m.message source)
  | .read .notToml => Failure.inConfig "not a TOML document".toList
  | .violation v => Failure.inConfig v.message

/-- The wording of a failure. -/
def Failure.message : Failure → Text
  | .source f => f.message
  | .config f => f.message
  | .wrongExtension path expected =>
    quote path.text ++ " is not a ".toList ++ quote ('.' :: expected) ++ " template".toList
  | .nothingAt path => quote path.text ++ " is neither a file nor a directory".toList
  | .table path fault => inGenerated path fault.message
  | .disk path cause => because (onDisk path) cause.message
  | .unlisted path cause => because ("cannot read ".toList ++ quote path.text) (onVisit path cause)
  | .unscanned path cause =>
    because (because ("Failed to read ".toList ++ quote path.text) (onVisit path cause)) cause.message
  | .notCopied path cause => because ("cannot copy ".toList ++ quote path.text) cause.message
  | .notMade path cause => because ("Failed to create ".toList ++ quote path.text) cause.message
  | .notWritten path cause => because ("Failed to write ".toList ++ quote path.text) cause.message
  | .tokenCount count => Interchange.tokenCountMessage count
  | .outputHoldsSource output held =>
    "output ".toList ++ quote output.text ++ " must not contain the source directory ".toList ++
      quote held.text
  | .holdsWorkingDir path =>
    "refusing to remove ".toList ++ quote path.text ++ ": it contains the working directory".toList
  | .noWorkingDir cause => because "Failed to get current directory".toList cause.message
  | .noCommand => "Empty command".toList
  | .notStarted program cause => because (onStart program) cause.message
  | .incomplete => "build finished with errors".toList

/-- The wording of a failure, the cause left out where the system gave it. -/
def Failure.headline : Failure → Text
  | .disk path _ => onDisk path
  | f => f.message

/-- Whether the command line itself asked for what cannot be built. -/
def Failure.isStructural : Failure → Bool
  | .wrongExtension _ _ => true
  | .nothingAt _ => true
  | _ => false

end Quire
