import Quire.Disk.File

/-!
The programs that there are: a shell, one that always succeeds and one that always fails. They stand
in the directory of system programs, beside which there is the null device.
-/

namespace Quire.Tool

/-- The programs that there are. -/
inductive Known
  | shell
  | succeed
  | fail
deriving DecidableEq

namespace Known

/-- The program of a name. -/
def named? (name : Text) : Option Known :=
  if name = "sh".toList then some .shell
  else if name = "true".toList then some .succeed
  else if name = "false".toList then some .fail
  else none

/-- The program at a place. -/
def placed? : Disk.Place → Option Known
  | [dir, name] => if dir = "bin".toList then named? name else none
  | _ => none

/-- The program that a path leads to, links followed. -/
def at? (d : Disk) (p : Path) : Option Known :=
  match d.place? p with
  | .ok place => if d.isFile p then placed? place else none
  | .error _ => none

/-- What stands where a program is: bytes that are no text. -/
def bytes : ByteArray := ⟨#[0x7f, 0x45, 0x4c, 0x46, 0xff]⟩

/-- The system itself: its programs, the null device, and the other directories that are always
there. -/
def system : List (Text × Disk.Node) :=
  let programs : List (Text × Disk.Node) :=
    ["false", "sh", "true"].map fun name => (name.toList, .file bytes)
  let others : List (Text × Disk.Node) :=
    ["etc", "home", "lib", "media", "mnt", "opt", "proc", "root", "run", "sbin", "srv", "sys",
      "tmp", "usr", "var"].map fun name => (name.toList, .dir [])
  ("bin".toList, .dir programs) :: ("dev".toList, .dir [("null".toList, .sink)]) :: others

end Known

end Quire.Tool
