import Quire.Shell.Start

/-!
Finding and running programs. A command with a slash in it is a path, which is followed from the
directory in which the program is run; any other command is the name of a system program.
-/

namespace Quire.Tool

/-- The directory of the system's programs. -/
def systemDir : Path := ⟨"/bin".toList⟩

/-- The path that a command stands for, if those with a slash stand for themselves. -/
def pathOf (command : Text) (isPath : Bool) : Path :=
  if isPath then ⟨command⟩ else ⟨systemDir.text ++ '/' :: command⟩

/-- Whether a command can be called from the working directory. -/
def isAvailable (d : Disk) (command : Text) : Bool :=
  let isPath := 1 < (Path.steps ⟨command⟩).length
  command ≠ [] && (Known.at? d (pathOf command isPath)).isSome

/-- The program that a command calls. What is no program cannot be run. -/
def find (d : Disk) (command : Text) : Except Disk.Fault Known := do
  if command = [] then throw .notFound
  let p := pathOf command (command.contains '/')
  let place ← d.place? p
  match Known.at? d p, d.root.get? place with
  | some program, _ => return program
  | none, some _ => throw .denied
  | none, none => throw .notFound

/-- Runs a program. -/
def Known.run (p : Known) (d : Disk) (command : Text) (args : List Text) : Output × Disk :=
  match p with
  | .shell => Shell.start d command args
  | .succeed => (⟨.exited 0, .empty, .empty⟩, d)
  | .fail => (⟨.exited 1, .empty, .empty⟩, d)

/-- Starts a command from a directory, the working directory if none is given, and waits for its
end. -/
def start (d : Disk) (dir : Option Path) (command : Text) (args : List Text) :
    Except Disk.Fault (Output × Disk) := do
  let given := (dir.map (·.text)).toList ++ command :: args
  if given.any (·.contains '\x00') then throw .nulInCommand
  let place ←
    match dir with
    | some p => d.place? p
    | none => .ok d.cwd
  let _ ← Disk.childrenAt d.root place
  let inside := { d with cwd := place }
  let p ← find inside command
  let (output, after) := p.run inside command args
  return (output, { after with cwd := d.cwd })

end Quire.Tool
