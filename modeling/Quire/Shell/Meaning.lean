import Quire.Shell.Grammar
import Quire.Shell.Options
import Quire.Shell.Streams

/-!
What the name of a command stands for: one of the shell's own commands, a function, or a program
that is found by its path.
-/

namespace Quire.Shell

/-- What the name of a command stands for. -/
inductive Meaning
  | own
  | function (body : Command)
  /-- A program, and the path under which it was found. -/
  | program (p : Tool.Known) (path : Text)
  | missing (e : Disk.Fault)

namespace Meaning

/-- The names of the shell's own commands, beside the special ones. -/
def ownNames : List Text :=
  ["[", "alias", "bg", "cd", "chdir", "command", "echo", "false", "fg", "getopts", "hash", "jobs",
    "kill", "printf", "pwd", "read", "test", "true", "type", "ulimit", "umask", "unalias",
    "wait"].map lit

/-- Whether a command is special: its mistakes end the shell, and what is assigned before it
stays. -/
def isSpecial (name : Text) : Bool := Grammar.specialNames.contains name

/-- Whether the words of a command may be assignments. -/
def takesAssignments (name : Text) : Bool :=
  ["alias", "export", "local", "readonly"].any fun s => lit s = name

/-- The program under a path. -/
def programAt (s : State) (path : Text) : Except Disk.Fault Tool.Known := do
  let place ← s.disk.place? (pathOf path)
  match s.world.root.get? place, Tool.Known.placed? place with
  | some (.file _), some p => return p
  | some _, _ => throw .denied
  | none, _ => throw .notFound

/-- The directories in which programs are looked for. -/
def directories (s : State) : List Text :=
  match s.value? (lit "PATH") with
  | some t => Text.fields ':' t
  | none => []

/-- The path of a name in a directory. -/
def inDirectory (dir name : Text) : Text := if dir = [] then name else dir ++ '/' :: name

/-- The program of a name in the first directory that has it. Where there is none, something else
of that name matters more than nothing at all. -/
def search (s : State) (name : Text) : (dirs : List Text) → Disk.Fault → Meaning
  | [], e => .missing e
  | dir :: dirs, e =>
    let path := inDirectory dir name
    match programAt s path with
    | .ok p => .program p path
    | .error .notFound => search s name dirs e
    | .error .notDirectory => search s name dirs e
    | .error other => search s name dirs other

/-- The program of a name: the one under a path, or in one of the directories for programs. -/
def ofProgram (s : State) (name : Text) : Meaning :=
  if name.contains '/' then
    match programAt s name with
    | .ok p => .program p name
    | .error e => .missing e
  else search s name (directories s) .notFound

/-- What a name stands for, functions included or not. -/
def find (s : State) (withFunctions : Bool) (name : Text) : Meaning :=
  if isSpecial name then .own
  else
    match if withFunctions then s.functions.lookup name else none with
    | some body => .function body
    | none => if ownNames.contains name then .own else ofProgram s name

/-- The code of a command that could not be run. -/
def codeFor (e : Disk.Fault) : Nat :=
  if [.notFound, .notDirectory, .tooManyLinks, .nameTooLong].contains e then 127 else 126

/-- Complains that a command cannot be run. -/
def refuse (name : Text) (e : Disk.Fault) : Does Unit :=
  complain (name ++ lit ": " ++ Streams.reason e "not found")

/-! Descriptions. -/

/-- Another word for a command, as a line of a script. -/
def aliasLine (name other : Text) : Text := name ++ '=' :: inQuotes other ++ ['\n']

/-- Tells what a name stands for, at length or as briefly as it can be said. -/
def describe (atLength : Bool) (name : Text) : Does Nat := do
  let s ← get
  let tell (long brief : Text) : Does Nat := do
    say ((if atLength then name ++ long else brief) ++ ['\n'])
    return 0
  let missing : Does Nat := do
    if atLength then say (name ++ lit ": not found\n")
    return 127
  if Grammar.keywords.contains name then tell (lit " is a shell keyword") name
  else
    match s.aliases.lookup name with
    | some other =>
      if atLength then say (name ++ lit " is an alias for " ++ other ++ ['\n'])
      else say (lit "alias " ++ aliasLine name other)
      return 0
    | none =>
      if name.contains '/' then
        if s.disk.has (pathOf name) then tell (lit " is " ++ name) name else missing
      else
        match find s true name with
        | .own =>
          let special := if isSpecial name then " is a special" else " is a"
          tell (lit (special ++ " shell builtin")) name
        | .function _ => tell (lit " is a shell function") name
        | .program _ path => tell (lit " is " ++ path) path
        | .missing _ => missing

/-- Tells what names stand for. -/
def describeAll (names : List Text) : Does Nat := do
  let codes ← names.mapM (describe true)
  return if codes.all (· = 0) then 0 else 127

/-- Tells what the first of some names stands for, if that is asked for. -/
def inquire (words : List Text) : Does Nat := do
  let (options, names) ← Options.plain "pvV" words
  match names with
  | name :: _ =>
    if options.contains 'V' ∨ options.contains 'v' then describe (options.contains 'V') name
    else return 0
  | [] => return 0

/-- Looks for commands. -/
def lookFor (words : List Text) : Does Nat := do
  let (options, names) ← Options.plain "r" words
  let s ← get
  let codes ← (if options = [] then names else []).mapM fun name => do
    match find s true name with
    | .missing e =>
      refuse name e
      return 1
    | _ => return 0
  return if codes.all (· = 0) then 0 else 1

/-! Other words for commands. -/

/-- Where another word for a command stands in the list of them. -/
def rank (name : Text) : Nat :=
  name.foldl (fun sum c => sum + c.toNat) (16 * (name.head?.map Char.toNat).getD 0) % 39

/-- Lists or gives other words for commands. -/
def alias' (words : List Text) : Does Nat := do
  if words = [] then
    let sorted := (← get).aliases.mergeSort fun a b => rank a.1 ≤ rank b.1
    say (sorted.flatMap fun (name, other) => aliasLine name other)
    return 0
  let codes ← words.mapM fun word => do
    let s ← get
    match Text.cutFirst ['='] word.tail with
    | some (name, other) =>
      let name := word.take 1 ++ name
      let aliases :=
        if (s.aliases.lookup name).isSome then
          s.aliases.map fun (n, t) => if n = name then (n, other) else (n, t)
        else s.aliases ++ [(name, other)]
      set { s with aliases }
      return 0
    | none =>
      match s.aliases.lookup word with
      | some other =>
        say (aliasLine word other)
        return 0
      | none =>
        grumble (lit "alias: " ++ word ++ lit " not found\n")
        return 1
  return if codes.all (· = 0) then 0 else 1

/-- Takes other words for commands away. -/
def unalias (words : List Text) : Does Nat := do
  let (options, names) ← Options.plain "a" words
  if options ≠ [] then
    modify fun s => { s with aliases := [] }
    return 0
  let codes ← names.mapM fun name => do
    let s ← get
    if (s.aliases.lookup name).isSome then
      set { s with aliases := s.aliases.filter (·.1 ≠ name) }
      return 0
    else
      grumble (lit "unalias: " ++ name ++ lit " not found\n")
      return 1
  return if codes.all (· = 0) then 0 else 1

end Meaning

end Quire.Shell
