import Quire.Shell.Run

/-!
Starting shells and other programs. Main statement: `start`, which runs a program from nothing but a
disk and words.
-/

namespace Quire.Shell

namespace Start

/-- The variables that a shell has at its beginning, beside those that it is given. -/
def initial : List (Text × Text) :=
  [("IFS", " \t\n"), ("OPTIND", "1"), ("PS1", "# "), ("PS2", "> "), ("PS4", "+ ")].map
    fun (name, t) => (lit name, lit t)

/-- The variables that a shell takes over from the one that starts it. Some are its own affair. -/
def takenOver (given : List (Text × Text)) : List (Text × Variable) :=
  let taken := given.filter fun (name, _) => isName name
  let isKept (name : Text) : Bool := ["IFS", "OPTIND"].any fun s => lit s = name
  let value (name t : Text) : Text := if isKept name then (initial.lookup name).getD t else t
  let own := initial.filter fun (name, _) => (taken.lookup name).isNone
  own.map (fun (name, t) => (name, { value := some t })) ++
    taken.map fun (name, t) => (name, { value := some (value name t), exported := true })

/-- Whether a path is a way to the working directory. -/
def leadsHere (d : Disk) (path : Text) : Bool :=
  path.head? = some '/' && (d.place? (pathOf path)).toOption = some d.cwd

/-- A shell at its beginning. -/
def fresh (world : World) (cwd : Disk.Place) (name : Text) (above : List Nat)
    (given : List (Text × Text)) : State :=
  let process := world.newest + 1
  let world := { world with newest := process }
  let parent := lit "PPID"
  let taken := takenOver (given.filter (·.1 ≠ parent))
  let bindings := (parent, { value := some (Text.ofNat (above.headD 1)) }) :: taken
  let s : State := { world, process, above, cwd, place := [], name, line := 0, bindings }
  let place :=
    match s.value? (lit "PWD") with
    | some path => if leadsHere s.disk path then path else Directory.physical s
    | none => Directory.physical s
  let pwd : Variable := { value := some place, exported := true }
  { s with place, bindings := withVariable (lit "PWD") (some pwd) s.bindings }

/-- Reads all that is left of a stream. -/
def readAll (stream : Nat) : Does Text :=
  modifyGet fun s =>
    match s.opening? stream with
    | some (n, o) =>
      let bytes := if o.reads then s.world.bytes o.channel else .empty
      let openings := s.world.openings.setIfInBounds n { o with position := bytes.size }
      (spreadBytes (bytes.extract o.position bytes.size),
        { s with world := { s.world with openings } })
    | none => ([], s)

/-- The script in a file. -/
def file (path : Text) : Does Text := do
  let s ← get
  match Streams.input s path with
  | .error e => giveUp (lit "cannot open " ++ path ++ lit ": " ++ Streams.reason e "No such file")
  | .ok channel => return spreadBytes (s.world.bytes channel)

/-- Does what the words behind the name of a shell ask for. -/
def follow (self : Runs) (words : List Text) : Does Nat := do
  let given ← Settings.setAll true words { rest := words }
  discard Own.flush
  let begin' (name : Option Text) (rest : List Text) : Does Unit := do
    modify fun s => { s with name := name.getD s.name, words := rest }
    if (← get).has 'i' then Settings.setLetter true 'm'
    Settings.settle
  match given.rest with
  | [] =>
    if given.script then giveUp (lit "-c requires an argument")
    Settings.setLetter true 's'
    begin' none []
    self.script false true (← readAll 0)
  | first :: rest =>
    if given.script then
      begin' rest.head? rest.tail
      self.script false false first
    else if (← get).has 's' then
      begin' none given.rest
      self.script false true (← readAll 0)
    else
      let t ← file first
      begin' (some first) rest
      self.script false true t

/-- Runs a shell from its beginning to its end. -/
def shell (self : Runs) (words : List Text) : Does Nat := do
  let result ← attempt (follow self words)
  discard Own.flush
  conclude self result

/-- How something ended, and the shell that is left. -/
def statusOf : Except Stop Nat → Tool.Status
  | .ok code => .exited (code % 256)
  | .error (.killed signal) => .killed signal
  | .error _ => .exited 2

/-- Runs a program in the midst of a shell. -/
def program (self : Runs) (p : Tool.Known) (words : List Text) : Does Tool.Status := fun s =>
  match p with
  | .succeed => (.ok (.exited 0), s)
  | .fail => (.ok (.exited 1), s)
  | .shell =>
    let begun := fresh s.world s.cwd (words.headD []) (s.process :: s.above) s.exported
    let passedBy := (s.traps.filter (·.2 = [])).map (·.1)
    let deaf := s.deaf ++ passedBy.filter (· ≠ 0)
    let begun := { begun with streams := s.streams, mask := s.mask, heres := s.heres, deaf }
    let (result, after) := (shell self words.tail).run begun
    let left := { s with world := after.world, heres := after.heres }
    match result with
    | .error .exhausted => (.error .exhausted, left)
    | _ => (.ok (statusOf result), left)

end Start

/-- What a shell comes back to, at most so many times one inside the other. -/
def runs : (depth : Nat) → Runs
  | 0 =>
    { command := fun _ _ => throw .exhausted
      script := fun _ _ _ => throw .exhausted
      glyphs := fun _ _ => throw .exhausted
      program := fun _ _ => throw .exhausted }
  | n + 1 =>
    { command := fun m c => Run.command (runs n) m c
      script := fun tested isFile t => Run.script (runs n) tested isFile t
      glyphs := fun m w => Expand.glyphs (runs n) m w
      program := fun p words => Start.program (runs n) p words }

/-- How deep a shell may come back to itself. -/
def deepest : Nat := 10000

/-- The variables that programs are given when nothing else is said. -/
def surroundings : List (Text × Text) :=
  [(lit "HOME", lit "/root"), (lit "PATH", lit "/bin")]

/-- The number of the first process. -/
def firstProcess : Nat := 4242

/-- Runs a shell on a disk, with a name and other words. Nothing comes on its input. -/
def start (d : Disk) (name : Text) (words : List Text) : Tool.Output × Disk :=
  let world : World :=
    { root := d.root
      openings := #[{ channel := .nothing, reads := true },
        { channel := .gathered 0, writes := true }, { channel := .gathered 1, writes := true }]
      gathered := #[.empty, .empty]
      newest := firstProcess - 1 }
  let begun := Start.fresh world d.cwd (spread name) [] surroundings
  let begun := { begun with streams := [(0, 0), (1, 1), (2, 2)] }
  let (result, after) := (Start.shell (runs deepest) (words.map spread)).run begun
  let bytes (n : Nat) : ByteArray := after.world.gathered.getD n .empty
  (⟨Start.statusOf result, bytes 0, bytes 1⟩, { d with root := after.world.root })

end Quire.Shell
