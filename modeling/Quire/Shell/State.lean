import Quire.Shell.Command
import Quire.Tool.Known
import Quire.Tool.Signal

/-!
A running shell. What it shares with the shells that it starts is the files, the openings of files,
and the bytes that are gathered from what commands write; all else is its own.
-/

namespace Quire.Shell

/-- What an opening is connected to. -/
inductive Channel
  /-- Bytes that are gathered, by their number. -/
  | gathered (n : Nat)
  | file (place : Disk.Place)
  | directory
  /-- Something that is always empty and takes everything. -/
  | nothing
deriving DecidableEq

/-- An opening, with the position that reading and writing move. -/
structure Opening where
  channel : Channel
  position : Nat := 0
  appends : Bool := false
  reads : Bool := false
  writes : Bool := false

/-- What shells share. -/
structure World where
  root : Disk.Node
  openings : Array Opening := #[]
  gathered : Array ByteArray := #[]
  /-- Signals that were sent to shells which wait for the sender to end, by their processes. -/
  sent : List (Nat × Nat) := []
  /-- The number of the process that was started last. -/
  newest : Nat

/-- A variable. One that is only marked has no value. -/
structure Variable where
  value : Option Text := none
  exported : Bool := false
  fixed : Bool := false

/-- A running shell. -/
structure State where
  world : World
  cwd : Disk.Place
  /-- The working directory as it was come by. -/
  place : Text
  name : Text
  words : List Text := []
  bindings : List (Text × Variable) := []
  functions : List (Text × Command) := []
  streams : List (Nat × Nat) := []
  /-- How the last command ended. -/
  last : Nat := 0
  /-- How the last command ended whose output was put into a word of the present one. -/
  lastWritten : Nat := 0
  /-- The commands that were not waited for, the latest first, and how they ended. -/
  detached : List (Nat × Nat) := []
  options : List Char := []
  /-- What is done at a signal, by its number, and at the end, which counts as zero. -/
  traps : List (Nat × Text) := []
  /-- Signals that are passed by whatever is to be done at them. -/
  deaf : List Nat := []
  /-- The code with which the shell ends if it is told to end while a signal is attended to. -/
  exitCode : Option Nat := none
  /-- The number of its process, and those of the shells above. -/
  process : Nat
  above : List Nat := []
  /-- Whether it was started by another shell for a part of its work. -/
  isPart : Bool := false
  /-- What was written by a command of the shell's own that is still at work. -/
  said : Text := []
  /-- Signals that came and were not attended to. -/
  pending : List Nat := []
  aliases : List (Text × Text) := []
  heres : HereTexts := []
  /-- The line of the present command. -/
  line : Nat := 1
  /-- The line up to which the script has been read. -/
  ahead : Nat := 1
  /-- What speaks in complaints beside the shell. -/
  speaker : Option Text := none
  /-- How many loops there are around the present command. -/
  loops : Nat := 0
  /-- How many functions are running. -/
  calls : Nat := 0
  /-- What variables were before they were made local, for each function that is running. -/
  shadowed : List (List (Text × Option Variable)) := []
  /-- The permissions that new files do not get. -/
  mask : Nat := 0o022
  /-- Which word is the next to be read for options, and where in the one before it the reading
  stands if there are more letters in it. -/
  optionIndex : Nat := 1
  optionAt : Option Nat := none

/-- Why a shell does not go on. -/
inductive Stop
  /-- It ends with the code of the last command. -/
  | exits
  /-- It ends because of a mistake, if nothing is done about it. -/
  | fails
  /-- So many loops are left. -/
  | breaks (n : Nat)
  /-- A loop goes on with its next round, after so many inner ones are left. -/
  | continues (n : Nat)
  | returns
  | killed (signal : Nat)
  /-- It takes too long. -/
  | exhausted
deriving DecidableEq

/-- What a shell does. -/
abbrev Does := ExceptT Stop (StateM State)

/-- The disk as a shell sees it. -/
def State.disk (s : State) : Disk := ⟨s.world.root, s.cwd⟩

/-- Whether an option is set. -/
def State.has (s : State) (option : Char) : Bool := s.options.contains option

/-! Variables. -/

/-- The value of a variable. -/
def State.value? (s : State) (name : Text) : Option Text :=
  (s.bindings.lookup name).bind (·.value)

/-- The variables with another one under a name, or with none. -/
def withVariable (name : Text) (v : Option Variable) (vs : List (Text × Variable)) :
    List (Text × Variable) :=
  let others := vs.filter (·.1 ≠ name)
  match v with
  | some v => (name, v) :: others
  | none => others

/-- What separates words in values. -/
def State.separators (s : State) : Text := (s.value? (lit "IFS")).getD (lit " \t\n")

/-- The texts of the variables that programs are given. -/
def State.exported (s : State) : List (Text × Text) :=
  s.bindings.filterMap fun (name, v) => if v.exported then v.value.map (name, ·) else none

/-! Streams. -/

/-- The opening of a stream. -/
def State.opening? (s : State) (stream : Nat) : Option (Nat × Opening) :=
  (s.streams.lookup stream).bind fun n => (s.world.openings[n]?).map (n, ·)

/-- A shell whose stream is connected to something else, or to nothing at all. -/
def State.connect (s : State) (stream : Nat) (opening : Option Nat) : State :=
  let others := s.streams.filter (·.1 ≠ stream)
  { s with streams :=
      match opening with
      | some n => (stream, n) :: others
      | none => others }

/-- A shell with one more opening, and the number of it. -/
def State.opened (s : State) (o : Opening) : Nat × State :=
  let w := s.world
  (w.openings.size, { s with world := { w with openings := w.openings.push o } })

/-- A shell with a new place to gather bytes at, and the number of it. -/
def State.gathering (s : State) (bytes : ByteArray) : Nat × State :=
  let w := s.world
  (w.gathered.size, { s with world := { w with gathered := w.gathered.push bytes } })

/-- A shell that has started one more process, and the number of it. -/
def State.started (s : State) : Nat × State :=
  let n := s.world.newest + 1
  (n, { s with world := { s.world with newest := n } })

/-- The bytes behind an opening. -/
def World.bytes (w : World) : Channel → ByteArray
  | .gathered n => w.gathered.getD n .empty
  | .file place =>
    match w.root.get? place with
    | some (.file bytes) => bytes
    | _ => .empty
  | .directory => .empty
  | .nothing => .empty

/-- Bytes with others written over them from a position on. What is between is filled with zeros. -/
def overwritten (old : ByteArray) (at' : Nat) (new : ByteArray) : ByteArray :=
  let gap : ByteArray := ⟨(List.replicate (at' - old.size) 0).toArray⟩
  old.extract 0 at' ++ gap ++ new ++ old.extract (at' + new.size) old.size

/-- Writes bytes to an opening. -/
def World.write (w : World) (n : Nat) (o : Opening) (new : ByteArray) : World :=
  match o.channel with
  | .gathered k => { w with gathered := w.gathered.modify k (· ++ new) }
  | .file place =>
    let old := w.bytes o.channel
    let position := if o.appends then old.size else o.position
    let moved := { o with position := position + new.size }
    { w with
      openings := w.openings.setIfInBounds n moved
      root := w.root.set place (some (.file (overwritten old position new))) }
  | .directory => w
  | .nothing => w

/-- Writes to a stream. Fails if the stream is not open for that. -/
def writeTo (stream : Nat) (t : Text) : Does Bool :=
  modifyGet fun s =>
    match s.opening? stream with
    | some (n, o) =>
      if o.writes then (true, { s with world := s.world.write n o (gather t) }) else (false, s)
    | none => (false, s)

/-- Reads one character from a stream, if there is one. -/
def readFrom? (stream : Nat) : Does (Option Char) :=
  modifyGet fun s =>
    match s.opening? stream with
    | some (n, o) =>
      let bytes := if o.reads then s.world.bytes o.channel else .empty
      if h : o.position < bytes.size then
        let moved := { o with position := o.position + 1 }
        let openings := s.world.openings.setIfInBounds n moved
        (some (Char.ofNat bytes[o.position].toNat), { s with world := { s.world with openings } })
      else (none, s)
    | none => (none, s)

/-! Complaints. -/

/-- Says what is wrong, with the place in the script. -/
def complain (t : Text) : Does Unit := do
  let s ← get
  let by' := (s.speaker.map fun n => n ++ lit ": ").getD []
  discard (writeTo 2 (s.name ++ lit ": " ++ Text.ofNat s.line ++ lit ": " ++ by' ++ t ++ ['\n']))

/-- Says what is wrong, and gives up. -/
def giveUp (t : Text) : Does α := do
  complain t
  modify fun s => { s with last := 2 }
  throw .fails

/-- Says something when the present command of the shell's own is at its end. -/
def say (t : Text) : Does Unit := modify fun s => { s with said := s.said ++ t }

/-- Writes to the stream of complaints without telling who speaks. -/
def grumble (t : Text) : Does Unit := discard (writeTo 2 t)

/-- Has the reading of options begin with another word. -/
def State.readOptionsFrom (s : State) (index : Text) : State :=
  { s with optionIndex := max 1 ((digits? index).getD 1), optionAt := none }

/-- Gives a variable a value. -/
def store (name value : Text) : Does Unit := do
  let s ← get
  let v := (s.bindings.lookup name).getD {}
  if v.fixed then giveUp (name ++ lit ": is read only")
  let exported := v.exported || s.has 'a'
  let v := { v with value := some value, exported }
  set { s with bindings := withVariable name (some v) s.bindings }
  if name = lit "OPTIND" then modify (·.readOptionsFrom value)

/-- Does something, and then puts back what a shell keeps for itself. What went wrong is known
afterwards. -/
def apart (does : Does α) : Does (Except Stop α) := fun s =>
  let (answer, after) := does.run s
  (.ok answer, { s with world := after.world, heres := after.heres })

/-- Does something, and tells what went wrong. -/
def attempt (does : Does α) : Does (Except Stop α) := fun s =>
  let (answer, after) := does.run s
  (.ok answer, after)

end Quire.Shell
