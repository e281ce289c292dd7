import Quire.Shell.Options
import Quire.Shell.Runs

/-!
Signals: their names in scripts, what is done when they come, and sending them. A signal that ends a
process ends the first shell, whichever of its parts sends it.
-/

namespace Quire.Shell

namespace Signals

/-- The name of a signal in a script. Zero stands for the end of the shell. -/
def name (signal : Nat) : Text :=
  let steps (start : String) (sign : Char) (n : Nat) : Text :=
    lit start ++ if n = 0 then [] else sign :: Text.ofNat n
  if signal = 0 then lit "EXIT"
  else if signal = 16 then lit "16"
  else if 50 ≤ signal then steps "RTMAX" '-' (Tool.Signal.greatest - signal)
  else if Tool.Signal.firstFree ≤ signal then
    steps "RTMIN" '+' (signal - Tool.Signal.firstFree)
  else (Tool.Signal.name? signal).getD (Text.ofNat signal)

/-- The numbers of all signals. -/
def all : List Nat := List.range (Tool.Signal.greatest + 1)

/-- The signal that a word means by its number or its name, from a least one on. -/
def ofText? (least : Nat) (t : Text) : Option Nat :=
  match digits? t with
  | some n => if n ≤ Tool.Signal.greatest then some n else none
  | none =>
    let upper (t : Text) : Text := t.map Char.toUpper
    all.find? fun n => least ≤ n && upper (name n) = upper t

/-! What is done when signals come. -/

/-- Lists what is done at signals. -/
def list : Does Unit := do
  let s ← get
  all.forM fun signal =>
    match s.traps.lookup signal with
    | some action => say (lit "trap -- " ++ inQuotes action ++ [' '] ++ name signal ++ ['\n'])
    | none => pure ()

/-- Sets what is done at signals. Nothing is done any more if no action is given. -/
def setAll (action : Option Text) : List Text → Does Nat
  | [] => return 0
  | word :: rest => do
    match ofText? 0 word with
    | none =>
      grumble (lit "trap: " ++ word ++ lit ": bad trap\n")
      return 1
    | some signal =>
      modify fun s =>
        let others := s.traps.filter (·.1 ≠ signal)
        { s with traps := (action.map (signal, ·)).toList ++ others }
      setAll action rest

/-- Lists or sets what is done at signals. -/
def trap (words : List Text) : Does Nat := do
  match ← Options.none' words with
  | [] =>
    list
    return 0
  | [word] => setAll none [word]
  | action :: rest =>
    if ((digits? action).bind fun _ => ofText? 0 action).isSome then setAll none (action :: rest)
    else setAll (if action = ['-'] then none else some action) rest

/-! Sending signals. -/

/-- How to send signals. -/
def usage : Text :=
  lit "Usage: kill [-s sigspec | -signum | -sigspec] [pid | job]... or\nkill -l [exitstatus]"

/-- Sends a signal to a process. Without such a process it fails. -/
def send (signal : Nat) (word : Text) : Does Bool := do
  let noProcess : Does Bool := do
    complain (lit "No such process\n")
    return false
  match word with
  | '%' :: _ => giveUp (lit "No such job: " ++ word)
  | '-' :: t =>
    discard (Options.count t)
    noProcess
  | _ =>
    let process ← Options.count word
    let s ← get
    if process = s.process ∧ ¬ s.isPart then
      receive signal
      return true
    else if process = s.process ∨ s.above.contains process then
      set { s with world := { s.world with sent := s.world.sent ++ [(process, signal)] } }
      return true
    else if (s.detached.lookup process).isSome then return true
    else noProcess

/-- Names signals: all, or the one that a number or the code of a killed command stands for. -/
def listNames : List Text → Does Nat
  | [] => do
    say (lit "0\n")
    all.tail.forM fun signal => say (name signal ++ ['\n'])
    return 0
  | word :: _ => do
    let n ← Options.count word
    let signal := if 128 < n then n - 128 else n
    if 0 < signal ∧ signal ≤ Tool.Signal.greatest then
      say (name signal ++ ['\n'])
      return 0
    else giveUp (lit "invalid signal number or exit status: " ++ word)

/-- The signal that is sent, if it is given, whether names are asked for, and the words behind
that. -/
def asked (words : List Text) : Does (Option Nat × Bool × List Text) := do
  match words with
  | ('-' :: t) :: rest =>
    match ofText? 1 t with
    | some signal => return (some signal, false, rest)
    | none =>
      let (options, rest) ← Options.read "l" "s" words words
      let given := (options.filter (·.1 = 's')).map (·.2)
      let signals ← given.mapM fun value =>
        match ofText? 1 value with
        | some signal => pure signal
        | none => giveUp (lit "invalid signal number or name: " ++ value)
      return (signals.getLast?, options.any (·.1 = 'l'), rest)
  | _ => return (none, false, words)

/-- Sends a signal to processes, or names signals. -/
def kill (words : List Text) : Does Nat := do
  if words = [] then giveUp usage
  let (signal?, lists, rest) ← asked words
  if lists then
    if signal?.isNone ∨ rest = [] then listNames rest else giveUp usage
  else if rest = [] then giveUp usage
  else
    let sent ← rest.mapM (send (signal?.getD 15))
    return if sent.all id then 0 else 1

/-- The command that is not waited for that a word means, by its number or its place among them. -/
def job? (s : State) (word : Text) : Does (Option Nat) :=
  match word with
  | '%' :: t =>
    let jobs := s.detached.reverse
    let found :=
      if t = [] ∨ t = ['%'] ∨ t = ['+'] then jobs.getLast?
      else (digits? t).bind fun n => if n = 0 then none else jobs[n - 1]?
    match found with
    | some (_, code) => return some code
    | none => giveUp (lit "No such job: " ++ word)
  | _ => do
    let process ← Options.count word
    return s.detached.lookup process

/-- Waits for commands, all of which have ended. -/
def wait (words : List Text) : Does Nat := do
  let s ← get
  let codes ← (← Options.none' words).mapM (job? s)
  return (codes.getLast?.map fun code => code.getD 127).getD 0

end Signals

end Quire.Shell
