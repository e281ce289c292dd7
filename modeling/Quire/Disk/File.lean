import Quire.Disk.Lookup

/-!
Reading, writing and copying files. A file that is written is emptied first, and a copy reads its
source only then, so a file that is copied onto itself is left empty.
-/

namespace Quire.Disk

/-- The disk with another node at a place, or with none there. -/
def put (d : Disk) (place : Place) (n : Option Node) : Disk := { d with root := d.root.set place n }

/-- The bytes of a file. -/
def read (d : Disk) (p : Path) : Except Fault ByteArray := do
  match ← d.node? p with
  | .file bytes => .ok bytes
  | .sink => .ok .empty
  | _ => .error .isDirectory

/-- The text of a file. -/
def readText (d : Disk) (p : Path) : Except Fault Text := do
  match Text.ofBytes? (← d.read p) with
  | some t => .ok t
  | none => .error .notText

/-- Where the file is, or will be, that is opened for writing under a path. A link as the last step
leads on to the path that it stands for, whether or not something is there. -/
def target (root : Node) (links : Nat) (place : Place) (p : Path) : Except Fault Place :=
  match splitEnding p with
  | (front, .name n slash) =>
    match _h : follow root links place front with
    | .error e => .error e
    | .ok (dir, left) =>
      match childrenAt root dir with
      | .error e => .error e
      | .ok children =>
        if slash then .error .isDirectory
        else
          match lookUp n children with
          | .error e => .error e
          | .ok (some (.dir _)) => .error .isDirectory
          | .ok (some (.link path)) =>
            match _k : left with
            | 0 => .error .tooManyLinks
            | fewer + 1 => target root fewer dir ⟨path⟩
          | .ok _ => .ok (dir ++ [n])
  | (steps, _) =>
    match follow root links place steps with
    | .error e => .error e
    | .ok _ => .error .isDirectory
termination_by links
decreasing_by
  have := le_of_follow _h
  omega

/-- Where the file is, or will be, that is written under a path. -/
def target? (d : Disk) (p : Path) : Except Fault Place := do
  checkPath p
  target d.root maxLinks d.cwd p

/-- The disk with other bytes in the file at a place, unless what is there swallows them. -/
def fill (d : Disk) (place : Place) (bytes : ByteArray) : Disk :=
  match d.root.get? place with
  | some .sink => d
  | _ => d.put place (some (.file bytes))

/-- The disk after a file got other bytes, or was made. -/
def write (d : Disk) (p : Path) (bytes : ByteArray) : Except Fault Disk := do
  return d.fill (← d.target? p) bytes

/-- The disk after a file got another text, or was made. -/
def writeText (d : Disk) (p : Path) (t : Text) : Except Fault Disk := d.write p t.toBytes

/-- The disk after the bytes of one file were put into another. -/
def copy (d : Disk) (source dest : Path) : Except Fault Disk := do
  let from' ← d.place? source
  match d.root.get? from' with
  | some (.file _) =>
    let goal ← d.target? dest
    let emptied := d.fill goal .empty
    match emptied.root.get? from' with
    | some (.file bytes) => return emptied.fill goal bytes
    | _ => return emptied
  | some _ => .error .notRegular
  | none => .error .notFound

end Quire.Disk
