import Quire.Command.Run

/-!
The program. The files below the working directory and below the paths on the command line are read,
the command is run on them, and what it changed is written back.
-/

namespace Quire.Program

open Disk (Node Place)

/-- The path of a place. -/
def pathOf (place : Place) : String := String.ofList (Path.ofNames place).text

/-- The place of an absolute path. -/
def placeOf (p : Path) : Place :=
  p.normalize.steps.filterMap fun
    | .name n => some n
    | _ => none

/-- Reads what is at a place, if it can be read. A link is taken to stand for where it leads in the
end. -/
partial def load (place : Place) : IO (Option Node) := do
  let path := pathOf place
  try
    let target ← IO.FS.realPath path
    if target.toString ≠ path then return some (.link target.toString.toList)
    if ← target.isDir then
      let entries ← target.readDir
      let children ← entries.toList.foldlM (fun children entry => do
        let name := entry.fileName.toList
        return match ← load (place ++ [name]) with
          | some n => Node.setChild name (some n) children
          | none => children) []
      return some (.dir children)
    else return some (.file (← IO.FS.readBinFile path))
  catch _ => return none

/-- The disk with what is at a place, and with the directories above it. -/
def graft (d : Disk) (place : Place) : IO Disk := do
  match ← load place with
  | none => return d
  | some n =>
    let (_, above) := Disk.makeDirs (Path.ofNames place.dropLast) d
    return above.put place (some n)

/-- Makes a place look as it is said, given how it looks. -/
partial def store (place : Place) (before after : Option Node) : IO Unit := do
  let path := pathOf place
  match before, after with
  | some (.file old), some (.file new) => if old ≠ new then IO.FS.writeBinFile path new
  | some (.dir old), some (.dir new) => storeChildren place old new
  | some (.link old), some (.link new) =>
    if old ≠ new then throw (IO.userError (path ++ " is another link now"))
  | none, some (.file new) => IO.FS.writeBinFile path new
  | none, some (.dir new) =>
    IO.FS.createDir path
    storeChildren place [] new
  | none, some (.link _) => throw (IO.userError (path ++ " is a new link"))
  | some .sink, some .sink => return
  | none, some .sink => return
  | none, none => return
  | some (.dir _), _ =>
    IO.FS.removeDirAll path
    store place none after
  | some _, _ =>
    IO.FS.removeFile path
    store place none after
where
  /-- Makes the children of a directory look as it is said. -/
  storeChildren (place : Place) (old new : List (Text × Node)) : IO Unit := do
    let gone := old.filter fun (name, _) => (Node.child? name new).isNone
    for (name, n) in gone do store (place ++ [name]) (some n) none
    for (name, n) in new do store (place ++ [name]) (Node.child? name old) (some n)

/-- The disk on which a command is run. -/
def diskFor (args : List Text) : IO Disk := do
  let cwd : Path := ⟨(← IO.currentDir).toString.toList⟩
  let named := args.map fun arg => placeOf (cwd.resolve ⟨arg⟩)
  let place := placeOf cwd
  let outside := named.filter fun other => !place.isPrefixOf other && !other.isPrefixOf place
  (place :: outside).foldlM graft ⟨.dir Tool.Known.system, place⟩

end Quire.Program

/-- Runs the program. -/
def main (args : List String) : IO UInt32 := do
  let args := args.map String.toList
  let colored := (← IO.getEnv "CLICOLOR_FORCE").any (· ≠ "0")
  let before ← Quire.Program.diskFor args
  let ended := Quire.Command.run before colored args
  Quire.Program.store [] (some before.root) (some ended.disk.root)
  IO.print (String.ofList ended.said)
  IO.eprint (String.ofList ended.errors)
  return ended.code.toUInt32
