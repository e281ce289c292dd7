import Quire.Shell.Condition
import Quire.Shell.Directory
import Quire.Shell.Escapes
import Quire.Shell.Format
import Quire.Shell.Input
import Quire.Shell.Meaning
import Quire.Shell.Settings
import Quire.Shell.Signals

/-!
The commands that a shell carries out itself. What they write is held back until they are at their
end.
-/

namespace Quire.Shell

namespace Own

/-- Writes words. -/
def echo (words : List Text) : Does Nat := do
  say (Escapes.echo words)
  return 0

/-- Writes values with a format. -/
def print (words : List Text) : Does Nat := do
  match ← Options.none' words with
  | [] => giveUp (lit "usage: printf format [arg ...]")
  | format :: values =>
    let w := Format.work format values
    w.complaints.forM complain
    say w.written
    match w.mistake with
    | some why => giveUp why
    | none => return if w.complaints = [] then 0 else 1

/-- Answers a question. -/
def test (words : List Text) : Does Nat := do
  let s ← get
  let isProgram (p : Path) : Bool := (Tool.Known.at? s.disk p).isSome
  match Condition.holds ⟨s.disk, isProgram⟩ words with
  | .ok b => return if b then 0 else 1
  | .error why => giveUp why

/-- Answers a question between brackets. -/
def testClosed (words : List Text) : Does Nat := do
  if (words.getLast?.bind List.head?) = some ']' then test words.dropLast
  else giveUp (lit "missing ]")

/-- The number that a command counts with, one if there is none. -/
def times (words : List Text) : Does Nat :=
  match words with
  | [] => return 1
  | word :: _ => Options.count word

/-- Leaves a loop, or its present round. -/
def leave (stop : Nat → Stop) (words : List Text) : Does Nat := do
  let n ← times words
  if n = 0 then giveUp (lit "Illegal number: " ++ words.headD [])
  let around := (← get).loops
  if around = 0 then return 0
  modify fun s => { s with last := 0 }
  throw (stop (min n around))

/-- Ends a function or a script that is read in. -/
def return' (words : List Text) : Does Nat := do
  match words with
  | [] => pure ()
  | word :: _ =>
    let code ← Options.count word
    modify fun s => { s with last := code }
  throw .returns

/-- Ends the shell. While a signal is attended to, the code is that of the command before it. -/
def exit (words : List Text) : Does Nat := do
  match words with
  | [] => modify fun s => { s with last := s.exitCode.getD s.last }
  | word :: _ =>
    let code ← Options.count word
    modify fun s => { s with last := code }
  throw .exits

/-- Drops some of the words of the script. -/
def shift (words : List Text) : Does Nat := do
  let n ← times words
  let s ← get
  if s.words.length < n then giveUp (lit "can't shift that many")
  set { s with words := s.words.drop n, optionIndex := 1, optionAt := none }
  return 0

/-- Runs words as a script. -/
def eval (self : Runs) (tested : Bool) (words : List Text) : Does Nat :=
  if words = [] then return 0 else self.script tested false (joinBlank words)

/-- Runs a script that is read in. -/
def source (self : Runs) (words : List Text) : Does Nat := do
  match ← Options.none' words with
  | [] => return 0
  | name :: _ =>
    let s ← get
    let isFile (path : Text) : Bool := s.disk.isFile (pathOf path)
    let path? :=
      if name.contains '/' then some name
      else ((Meaning.directories s).map (Meaning.inDirectory · name)).find? isFile
    match path? with
    | none => giveUp (name ++ lit ": not found")
    | some path =>
      match Streams.input s path with
      | .error e =>
        giveUp (lit "cannot open " ++ path ++ lit ": " ++ Streams.reason e "No such file")
      | .ok channel =>
        set { s with speaker := some path }
        match ← attempt (self.script false true (spreadBytes (s.world.bytes channel))) with
        | .error .returns => return (← get).last
        | .ok code => return code
        | .error stop => throw stop

/-- Runs a program in the place of the shell. -/
def exec (self : Runs) (words : List Text) : Does Nat := do
  match ← Options.none' words with
  | [] => return 0
  | name :: args =>
    match Meaning.ofProgram (← get) name with
    | .program p _ =>
      match ← self.program p (name :: args) with
      | .killed signal => throw (.killed signal)
      | .exited code =>
        modify fun s => { s with traps := s.traps.filter (·.1 ≠ 0), last := code }
        throw .exits
    | .missing e =>
      Meaning.refuse name e
      modify fun s => { s with last := Meaning.codeFor e }
      throw .exits
    | _ => return 0

/-- Complains that there is no command to go on with. -/
def resume : Does Nat := giveUp (lit "No current job")

/-- Carries out a command, given by its name. -/
def run (self : Runs) (tested : Bool) (name : Text) (words : List Text) : Does Nat :=
  match String.ofList name with
  | "." => source self words
  | ":" => return 0
  | "[" => testClosed words
  | "alias" => Meaning.alias' words
  | "bg" => resume
  | "break" => leave .breaks words
  | "cd" => Directory.change words
  | "chdir" => Directory.change words
  | "command" => Meaning.inquire words
  | "continue" => leave .continues words
  | "echo" => echo words
  | "eval" => eval self tested words
  | "exec" => exec self words
  | "exit" => exit words
  | "export" => Variables.export' words
  | "false" => return 1
  | "fg" => resume
  | "getopts" => Input.options words
  | "hash" => Meaning.lookFor words
  | "jobs" => return 0
  | "kill" => Signals.kill words
  | "local" => Variables.local' words
  | "printf" => print words
  | "pwd" => Directory.tell words
  | "read" => Input.read words
  | "readonly" => Variables.fix words
  | "return" => return' words
  | "set" => Settings.set words
  | "shift" => shift words
  | "test" => test words
  | "times" => do
    say (lit "0m0.000000s 0m0.000000s\n0m0.000000s 0m0.000000s\n")
    return 0
  | "trap" => Signals.trap words
  | "true" => return 0
  | "type" => Meaning.describeAll words
  | "ulimit" => do
    say (lit "unlimited\n")
    return 0
  | "umask" => Settings.mask words
  | "unalias" => Meaning.unalias words
  | "unset" => Variables.unset words
  | "wait" => Signals.wait words
  | _ => return 0

/-- Writes what a command held back. Tells whether it could be written. -/
def flush : Does Bool := do
  let t := (← get).said
  modify fun s => { s with said := [] }
  if t = [] then return true else writeTo 1 t

/-- Carries out a command, and writes what it has to say. A mistake in a command that is not special
does no harm. -/
def carryOut (self : Runs) (tested : Bool) (isSpecial : Bool) (name : Text) (words : List Text) :
    Does Nat := do
  let speaker := (← get).speaker
  modify fun s => { s with speaker := some name }
  let result ← attempt (run self tested name words)
  let isWritten ← flush
  if !isWritten then complain (name ++ lit ": I/O error")
  modify fun s => { s with speaker }
  match result with
  | .ok code => return if isWritten then code else code ||| 1
  | .error .fails => if isSpecial then throw .fails else return (← get).last
  | .error stop => throw stop

end Own

end Quire.Shell
