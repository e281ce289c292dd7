import Quire.Shell.Fields
import Quire.Shell.State
import Quire.Tool.Output

/-!
What a running shell comes back to, and how shells end: those that a shell starts for a part of its
work, and the shell itself.
-/

namespace Quire.Shell

/-- How a word is expanded. -/
structure Mode where
  /-- Whether it may become several words, or none. -/
  full : Bool := true
  /-- Whether a home directory may begin behind a colon, too. -/
  colons : Bool := false
  /-- Whether the text of the word itself is cut at separators. -/
  cuts : Bool := false

/-- How a command is run. -/
structure Manner where
  /-- Whether something depends on how it ends, so that its failure does not end the shell. -/
  tested : Bool := false
  /-- Whether a part of the shell's work ends with it, so that a program takes the place of that
  part. -/
  isLast : Bool := false

/-- What a shell comes back to while it runs something. -/
structure Runs where
  /-- Runs a command. -/
  command (m : Manner) (c : Command) : Does Nat
  /-- Runs a script that is given as a text, line by line. The lines of a file may be shown. -/
  script (tested isFile : Bool) (t : Text) : Does Nat
  /-- Expands a word. -/
  glyphs (m : Mode) (w : Word) : Does (List Glyph)
  /-- Runs a program with its arguments. -/
  program (p : Tool.Known) (words : List Text) : Does Tool.Status

/-- The code of a shell that comes to its end, before what is done at the end. -/
def codeOf (s : State) : Except Stop Nat → Except Stop Nat
  | .ok n => .ok n
  | .error (.killed signal) => .error (.killed signal)
  | .error .exhausted => .error .exhausted
  | .error _ => .ok s.last

/-- The end of a shell, given what it came to. What is done at the end is done now; the code stays
the same unless that ends early. -/
def conclude (self : Runs) (result : Except Stop Nat) : Does Nat := do
  match codeOf (← get) result with
  | .error stop => throw stop
  | .ok code =>
    let s ← get
    match s.traps.lookup 0 with
    | none => return code
    | some action =>
      set { s with traps := s.traps.filter (·.1 ≠ 0), last := code, exitCode := some code }
      match ← attempt (self.script false false action) with
      | .ok _ => return code
      | .error stop =>
        match codeOf (← get) (.error stop) with
        | .error stop => throw stop
        | .ok code => return code

/-- The code of a part of the work that has ended. If a signal ended it, that is told, unless it is
one by which things are ended often. -/
def codeOfPart (ended : Tool.Status) : Does Nat := do
  match ended with
  | .exited code => return code
  | .killed signal =>
    if signal ≠ 2 ∧ signal ≠ 13 then grumble (Tool.Signal.description signal ++ ['\n'])
    return 128 + signal

/-- Does something in a shell of its own, which forgets what is done at signals unless they are
passed by. -/
def separately (self : Runs) (does : Does Nat) : Does Nat := do
  let ended ← apart do
    modify fun s =>
      let traps := s.traps.filter (·.2 = [])
      { s with traps, pending := [], isPart := true, ahead := 1 }
    conclude self (← attempt does)
  match ended with
  | .ok code => return code % 256
  | .error (.killed signal) => codeOfPart (.killed signal)
  | .error stop => throw stop

/-- A signal comes to the shell. -/
def receive (signal : Nat) : Does Unit := do
  let s ← get
  if s.deaf.contains signal then return
  let isHeld := signal = 9 || signal = 19
  match if isHeld then none else s.traps.lookup signal with
  | some [] => return
  | some _ => set { s with pending := s.pending ++ [signal] }
  | none => if Tool.Signal.ends signal then throw (.killed signal)

/-- The signals that the parts of the first shell sent to it come to it. -/
def receiveSent : Does Unit := do
  let s ← get
  if !s.isPart then
    let (own, others) := s.world.sent.partition fun (process, _) => process = s.process
    set { s with world := { s.world with sent := others } }
    own.forM fun (_, signal) => receive signal

/-- The code of something that writes on when nothing reads any more. -/
def brokenOff : Nat := 128 + 13

/-- Does something in a shell of its own, and gathers what it writes. What does not end by itself is
broken off. -/
def gathering (self : Runs) (does : Does Nat) : Does (Nat × Text) := do
  let (n, s) := (← get).gathering .empty
  set s
  let ended ← attempt <| separately self do
    let (o, s) := (← get).opened { channel := .gathered n, writes := true, appends := true }
    set (s.connect 1 (some o))
    does
  let code ←
    match ended with
    | .ok code => pure code
    | .error .exhausted => pure brokenOff
    | .error stop => throw stop
  return (code, spreadBytes ((← get).world.gathered.getD n .empty))

/-- Attends to the signals that came. How the last command ended is not changed by that. -/
def attend (self : Runs) : Does Unit := do
  let signals := (← get).pending.eraseDups.mergeSort
  modify fun s => { s with pending := [] }
  signals.forM fun signal => do
    let s ← get
    match s.traps.lookup signal with
    | none => return
    | some action =>
      set { s with exitCode := some s.last }
      discard (self.script false false action)
      modify fun after => { after with last := s.last, exitCode := s.exitCode }

end Quire.Shell
