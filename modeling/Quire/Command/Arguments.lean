import Quire.Path.Basic

/-!
The command line. Options stand before or behind the path of a command; one that takes a value
waits for it, and its value is checked when the next option, the next path or the end is reached.
-/

namespace Quire.Command

/-- What is asked for. -/
inductive Request
  | build (path : Path) (output : Option Path)
  | clean (output : Option Path)
deriving DecidableEq

/-- A command line that was understood. -/
structure CommandLine where
  config : Path
  verbose : Bool
  request : Request
deriving DecidableEq

/-- Where in a command line one is: before the command, or in one. -/
inductive Level
  | top
  | build
  | clean
deriving DecidableEq

/-- The options of all levels. -/
inductive Switch
  | config
  | verbose
  | output
  | help
  | version
deriving DecidableEq

/-- What can be given at most once: an option or the path. -/
inductive Slot
  | option (o : Switch)
  | path
deriving DecidableEq

/-- Why a command line is not carried out. Help and version are asked for; the rest is refused. -/
inductive Refusal
  | help (level : Level) (long : Bool)
  | helpOnHelp
  | version
  | nothingGiven
  | noCommand
  | unknownCommand (name : Text)
  | unknownArgument (level : Level) (arg : Text)
  | missingPath (withOutput : Bool)
  | missingValue (slot : Slot)
  | unwantedValue (level : Level) (o : Switch) (value : Text)
  | givenTwice (level : Level) (slot : Slot)
deriving DecidableEq

/-- The options of a level with their letters and names. -/
def optionsOf : Level → List (Switch × Char × Text)
  | .top => [
    (.config, 'C', "config".toList),
    (.verbose, 'v', "verbose".toList),
    (.help, 'h', "help".toList),
    (.version, 'V', "version".toList)]
  | _ => [
    (.output, 'o', "output".toList),
    (.help, 'h', "help".toList)]

/-- The option that a letter stands for. -/
def ofLetter? (level : Level) (c : Char) : Option Switch :=
  ((optionsOf level).find? fun (_, letter, _) => letter = c).map (·.1)

/-- The option that a name stands for. -/
def ofName? (level : Level) (name : Text) : Option Switch :=
  ((optionsOf level).find? fun (_, _, n) => n = name).map (·.1)

/-- Whether an option takes a value. -/
def Switch.takesValue : Switch → Bool
  | .config => true
  | .output => true
  | _ => false

/-- The commands by name. -/
def levelOf? (name : Text) : Option Level :=
  if name = "build".toList then some .build
  else if name = "clean".toList then some .clean
  else none

/-- The command that explains the others. -/
def helpWord : Text := "help".toList

/-- What was given at a level so far. -/
structure Given where
  config : Option Text := none
  output : Option Text := none
  path : Option Text := none
  verbose : Bool := false

/-- What was begun and is not checked yet: an option that waits for its value, or a value. -/
inductive Pending
  | nothing
  | waiting (o : Switch)
  | value (slot : Slot) (text : Text)

/-- The state of reading a level. -/
structure Reading where
  given : Given := {}
  pending : Pending := .nothing
  /-- Whether a path was met. -/
  hasPath : Bool := false
  /-- Whether everything from here on is no option. -/
  trailing : Bool := false

/-- Takes in the value of a slot. It must not be empty, and the slot must not be taken. -/
def Given.put (level : Level) (slot : Slot) (text : Text) (g : Given) : Except Refusal Given :=
  let taken :=
    match slot with
    | .option .config => g.config.isSome
    | .option .output => g.output.isSome
    | _ => false
  if taken then .error (.givenTwice level slot)
  else if text = [] then .error (.missingValue slot)
  else
    match slot with
    | .option .config => .ok { g with config := some text }
    | .option .output => .ok { g with output := some text }
    | .option _ => .ok g
    | .path => .ok { g with path := some text }

/-- Checks what was begun. -/
def Reading.settle (level : Level) (r : Reading) : Except Refusal Reading :=
  match r.pending with
  | .nothing => .ok r
  | .waiting o => .error (.missingValue (.option o))
  | .value slot text => do
    return { r with given := ← r.given.put level slot text, pending := .nothing }

/-- Carries out an option that takes no value. -/
def Reading.flag (level : Level) (o : Switch) (long : Bool) (r : Reading) :
    Except Refusal Reading := do
  let r ← r.settle level
  match o with
  | .help => .error (.help level long)
  | .version => .error .version
  | _ =>
    if r.given.verbose then .error (.givenTwice level (.option o))
    else return { r with given := { r.given with verbose := true } }

/-- Carries out an option that takes a value, which may be attached to it. -/
def Reading.valued (level : Level) (o : Switch) (attached : Option Text) (r : Reading) :
    Except Refusal Reading := do
  let r ← r.settle level
  match attached with
  | some text => return { r with given := ← r.given.put level (.option o) text }
  | none => return { r with pending := .waiting o }

/-- Reads an argument that begins with two dashes, without these. -/
def Reading.longOption (level : Level) (arg : Text) (r : Reading) : Except Refusal Reading :=
  let name := arg.takeWhile (· ≠ '=')
  let attached : Option Text :=
    match arg.dropWhile (· ≠ '=') with
    | [] => none
    | _ :: value => some value
  match ofName? level name, attached with
  | none, _ => .error (.unknownArgument level ('-' :: '-' :: name))
  | some o, some value =>
    if o.takesValue then r.valued level o (some value)
    else .error (.unwantedValue level o value)
  | some o, none => if o.takesValue then r.valued level o none else r.flag level o true

/-- Reads the letters behind a single dash. The first that takes a value takes what follows it. -/
def Reading.letters (level : Level) : Text → Reading → Except Refusal Reading
  | [], r => .ok r
  | c :: rest, r =>
    match ofLetter? level c with
    | none => .error (.unknownArgument level ['-', c])
    | some o =>
      if o.takesValue then
        let attached : Option Text :=
          match rest with
          | [] => none
          | '=' :: value => some value
          | value => some value
        r.valued level o attached
      else do letters level rest (← r.flag level o false)

/-- Reads an argument that is neither an option nor the value of one. -/
def Reading.plain (level : Level) (arg : Text) (r : Reading) : Except Refusal Reading :=
  match level with
  | .build =>
    if r.hasPath then .error (.unknownArgument level arg)
    else do
      let r ← r.settle level
      return { r with pending := .value .path arg, hasPath := true }
  | .clean => .error (.unknownArgument level arg)
  | .top =>
    if r.trailing ∧ ((levelOf? arg).isSome ∨ arg = helpWord) then
      .error (.unknownArgument level arg)
    else .error (.unknownCommand arg)

/-- Whether an option waits for its value. -/
def Reading.isWaiting (r : Reading) : Bool :=
  match r.pending with
  | .waiting _ => true
  | _ => false

/-- Reads one argument that opens no command. -/
def Reading.argument (level : Level) (arg : Text) (r : Reading) : Except Refusal Reading :=
  if r.trailing then r.plain level arg
  else
    match arg with
    | ['-', '-'] => .ok { r with trailing := true }
    | '-' :: '-' :: rest => r.longOption level rest
    | '-' :: c :: rest => r.letters level (c :: rest)
    | _ =>
      match r.pending with
      | .waiting o => .ok { r with pending := .value (.option o) arg }
      | _ => r.plain level arg

/-- Reads the arguments of a command. -/
def readCommand (level : Level) (args : List Text) : Except Refusal Given := do
  let r ← args.foldlM (fun r arg => Reading.argument level arg r) {}
  return (← r.settle level).given

/-- The request that a command makes with what it was given. -/
def requestOf (level : Level) (g : Given) : Except Refusal Request :=
  let output := g.output.map Path.mk
  match level with
  | .build =>
    match g.path with
    | some path => .ok (.build ⟨path⟩ output)
    | none => .error (.missingPath output.isSome)
  | _ => .ok (.clean output)

/-- Why the command that explains the others ends as it does. -/
def explain : List Text → Refusal
  | [] => .help .top true
  | [name] =>
    match levelOf? name with
    | some level => .help level true
    | none => if name = helpWord then .helpOnHelp else .unknownCommand name
  | name :: other :: _ =>
    match levelOf? name with
    | some _ => .unknownCommand other
    | none => if name = helpWord then .unknownCommand other else .unknownCommand name

/-- The configuration file that is used when none is named. -/
def defaultConfig : Text := "pagewright.toml".toList

/-- The command line that was given at the top, with the request of the command. -/
def complete (r : Reading) (request : Request) : Except Refusal CommandLine := do
  let r ← r.settle .top
  return ⟨⟨r.given.config.getD defaultConfig⟩, r.given.verbose, request⟩

/-- Refuses a command line without a command. -/
def withoutCommand (r : Reading) : Except Refusal CommandLine := do
  let r ← r.settle .top
  if r.given.config.isSome ∨ r.given.verbose then .error .noCommand else .error .nothingGiven

/-- Reads the arguments before the command, and then those of the command. -/
def readTop (r : Reading) : List Text → Except Refusal CommandLine
  | [] => withoutCommand r
  | arg :: rest =>
    if r.trailing ∨ r.isWaiting then do readTop (← r.argument .top arg) rest
    else if arg = helpWord then .error (explain rest)
    else
      match levelOf? arg with
      | some level => do
        let request ← requestOf level (← readCommand level rest)
        complete r request
      | none => do readTop (← r.argument .top arg) rest

/-- Reads the arguments behind the program's name. -/
def CommandLine.ofArgs (args : List Text) : Except Refusal CommandLine := readTop {} args

end Quire.Command
