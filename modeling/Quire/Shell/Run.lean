import Quire.Shell.Own

/-!
Running commands and scripts. Main statements: `Run.command` and `Run.script`.
-/

namespace Quire.Shell

namespace Run

/-! Simple commands. -/

/-- The words of a command that are known, and those that are still to be expanded. -/
structure Line where
  known : List Text
  rest : List Word

/-- Expands words until one is known. -/
def fill (self : Runs) : List Word → Does Line
  | [] => return ⟨[], []⟩
  | w :: rest => do
    match ← Expand.words self w with
    | [] => fill self rest
    | known => return ⟨known, rest⟩

/-- The line behind its first word. -/
def behind (self : Runs) (l : Line) : Does Line :=
  match l.known.tail with
  | [] => fill self l.rest
  | known => return ⟨known, l.rest⟩

/-- What is done with a line: what its first word stands for, and whether the mistakes of the
command end the shell and its assignments stay. -/
structure Plan where
  line : Line
  meaning : Meaning
  isSpecial : Bool
  /-- The words before the line that say to leave functions aside. -/
  before : List Text := []

/-- A line behind words that say to leave functions aside, if it begins with such words and a
command follows. The first of the words is passed by. -/
def stripped? (self : Runs) : (steps : Nat) → Line → Does (Line × Option Line)
  | 0, l => return (l, none)
  | n + 1, l => do
    let after ← behind self l
    let whole : Line := ⟨l.known.take 1 ++ after.known, after.rest⟩
    match after.known with
    | [] => return (whole, none)
    | ['-', '-'] :: _ =>
      let next ← behind self after
      let whole : Line := ⟨l.known.take 1 ++ after.known.take 1 ++ next.known, next.rest⟩
      return (whole, if next.known = [] then none else some next)
    | ('-' :: c :: more) :: _ =>
      if (c :: more).all (· = 'p') then
        let (inner, found) ← stripped? self n after
        return (⟨l.known.take 1 ++ inner.known, inner.rest⟩, found)
      else return (whole, none)
    | _ => return (whole, some after)

/-- Finds what a line stands for. -/
def plan (self : Runs) : (steps : Nat) → (withFunctions : Bool) → Line → Does Plan
  | 0, _, l => return { line := l, meaning := .own, isSpecial := false }
  | n + 1, withFunctions, l => do
    let name := l.known.headD []
    let meaning := Meaning.find (← get) withFunctions name
    match meaning with
    | .own =>
      if name ≠ lit "command" then
        return { line := l, meaning, isSpecial := withFunctions && Meaning.isSpecial name }
      match ← stripped? self (l.known.length + l.rest.length + 1) l with
      | (l, none) => return { line := l, meaning, isSpecial := false }
      | (whole, some inner) =>
        let p ← plan self n false inner
        let before := whole.known.take (whole.known.length - inner.known.length)
        return { p with isSpecial := false, before := before ++ p.before }
    | _ => return { line := l, meaning, isSpecial := false }

/-- Expands the rest of a line. Where they are taken, assignments stay whole. -/
def finish (self : Runs) (p : Plan) : Does (List Text) := do
  let takes := (p.meaning matches .own) && p.line.known.head?.any Meaning.takesAssignments
  let words ← p.line.rest.mapM fun w => do
    match if takes then Part.assignment? w else none with
    | some (name, value) => return [name ++ '=' :: (← Expand.assigned self value)]
    | none => Expand.words self w
  return p.line.known ++ words.flatten

/-- What stands before a command that is shown. Parameters are put into it, but no output of other
commands. -/
def prompt (self : Runs) : Does Text := do
  let t := ((← get).value? (lit "PS4")).getD []
  match (Grammar.hereWord (Grammar.rules (t.length + 4))).run { rest := t } with
  | .ok (w, _) =>
    let runs (p : Part) : Bool := p matches .written ..
    if w.any runs then return t else Expand.text self w
  | .error _ => return t

/-- Shows a command where complaints went before its redirections. -/
def trace (self : Runs) (stream : Option Nat) (words : List Text) : Does Unit := do
  if (← get).has 'x' then
    let start ← prompt self
    modify fun s =>
      match stream.bind fun n => (s.world.openings[n]?).map (n, ·) with
      | some (n, o) =>
        let t := start ++ joinBlank words ++ ['\n']
        if o.writes then { s with world := s.world.write n o (gather t) } else s
      | none => s

/-- Carries out assignments one by one, and gives them as words. -/
def assignAll (self : Runs) (isLocal exports : Bool) (assigned : List Word) : Does (List Text) :=
  assigned.filterMapM fun w => do
    match Part.assignment? w with
    | none => return none
    | some (name, value) =>
      let t ← Expand.assigned self value
      if isLocal then Variables.assignHere name t
      else
        store name t
        if exports then Variables.mark name fun v => { v with exported := true }
      return some (name ++ '=' :: t)

/-- How many functions may be running one inside the other. -/
def mostCalls : Nat := 1000

/-- Calls a function. -/
def call (self : Runs) (tested : Bool) (body : Command) (args : List Text) : Does Nat := do
  let before ← get
  if mostCalls ≤ before.calls then
    giveUp (lit "Maximum function recursion depth (" ++ Text.ofNat mostCalls ++ lit ") reached")
  let calls := before.calls + 1
  set { before with words := args, loops := 0, calls, optionIndex := 1, optionAt := none }
  let result ← attempt (self.command { tested } body)
  modify fun s =>
    { s with
      words := before.words
      loops := before.loops
      calls := before.calls
      optionIndex := before.optionIndex
      optionAt := before.optionAt }
  match result with
  | .ok code => return code
  | .error .returns => return (← get).last
  | .error stop => throw stop

/-- Carries out what a line stands for. -/
def carryOut (self : Runs) (m : Manner) (p : Plan) (words : List Text) : Does Nat :=
  match words, p.meaning with
  | [], _ => return (← get).lastWritten
  | name :: args, .own => Own.carryOut self m.tested p.isSpecial name args
  | _ :: args, .function body => call self m.tested body args
  | _, .program p _ => do
    let ended ← self.program p words
    receiveSent
    match ended, m.isLast with
    | .killed signal, true => throw (.killed signal)
    | _, _ => codeOfPart ended
  | name :: _, .missing e => do
    Meaning.refuse name e
    return if name.contains '/' then Meaning.codeFor e else 127

/-- Runs a simple command. -/
def simple (self : Runs) (m : Manner) (line : Nat) (assigned words : List Word)
    (streams : List Redirection) : Does Nat := do
  modify fun s => { s with line, lastWritten := 0 }
  let l ← fill self words
  let p ←
    if l.known = [] then pure { line := l, meaning := .own, isSpecial := true }
    else plan self (words.length + l.known.length + 1) true l
  let words ← finish self p
  let redirections ← streams.mapM (Streams.ready self)
  let isExec := words.head? = some (lit "exec") && (p.meaning matches .own)
  let complaints := (← get).streams.lookup 2
  let isLocal := !p.isSpecial
  let run : Does Nat := do
    if !(← Streams.connectAll self redirections) then
      if p.isSpecial ∧ words ≠ [] then throw .fails
      return 2
    let shown ← assignAll self isLocal (isExec && 1 < words.length) assigned
    if shown ≠ [] ∨ words ≠ [] then trace self complaints (shown ++ p.before ++ words)
    carryOut self m p words
  let needsRoom := isLocal && (!assigned.isEmpty || (p.meaning matches .function _))
  let inside := if needsRoom then Variables.inside run else run
  if isExec then inside else Streams.restoring streams inside

/-! Other commands. -/

/-- Runs something as the rounds of a loop are run. Tells whether the loop goes on, and how the
round ended, if it came to its end. -/
def round (does : Does Nat) : Does (Bool × Option Nat) := do
  modify fun s => { s with loops := s.loops + 1 }
  let result ← attempt does
  modify fun s => { s with loops := s.loops - 1 }
  match result with
  | .ok code => return (true, some code)
  | .error (.breaks 1) => return (false, none)
  | .error (.breaks n) => throw (.breaks (n - 1))
  | .error (.continues 1) => return (true, none)
  | .error (.continues n) => throw (.continues (n - 1))
  | .error stop => throw stop

/-- How many rounds a loop may have. -/
def mostRounds : Nat := 100000

/-- Runs a command as long as another one succeeds, or fails. -/
def loop (self : Runs) (tested whileFails : Bool) (test body : Command) :
    (rounds : Nat) → (status : Nat) → Does Nat
  | 0, _ => throw .exhausted
  | n + 1, status => do
    match ← round (self.command { tested := true } test) with
    | (false, _) => return status
    | (true, none) => loop self tested whileFails test body n status
    | (true, some code) =>
      if (code = 0) = whileFails then return status
      match ← round (self.command { tested } body) with
      | (false, _) => return 0
      | (true, none) => loop self tested whileFails test body n 0
      | (true, some code) => loop self tested whileFails test body n code

/-- Runs a command for each of some words. -/
def each (self : Runs) (tested : Bool) (name : Text) (body : Command) :
    List Text → (status : Nat) → Does Nat
  | [], status => return status
  | word :: rest, _ => do
    store name word
    match ← round (self.command { tested } body) with
    | (false, _) => return 0
    | (true, code) => each self tested name body rest (code.getD 0)

/-- The command behind the first pattern that a text fits. -/
def choose (self : Runs) (t : Text) : List (List Word × Option Command) → Does (Option Command)
  | [] => return none
  | (patterns, c) :: rest => do
    if ← patterns.anyM fun w => return (← Expand.pattern self w).fits t then return c
    choose self t rest

/-- Runs the stages of a pipeline, each on what the one before writes. -/
def stages (self : Runs) (tested : Bool) : List Command → (input : Option Nat) → Does Nat
  | [], _ => return 0
  | c :: rest, input => do
    let stage : Does Nat := do
      match input with
      | some n => modify fun s => s.connect 0 (some n)
      | none => pure ()
      self.command { tested, isLast := true } c
    match rest with
    | [] => separately self stage
    | _ =>
      let (_, t) ← gathering self stage
      let (k, s) := (← get).gathering (gather t)
      let (n, s) := s.opened { channel := .gathered k, reads := true }
      set s
      stages self tested rest (some n)

/-- Runs something that is not waited for. It has no input. -/
def detach (self : Runs) (does : Does Nat) : Does Nat := do
  let process ← modifyGet State.started
  let code ← separately self do
    let (n, s) := (← get).opened { channel := .nothing, reads := true }
    set (s.connect 0 (some n))
    does
  modify fun s => { s with detached := (process, code) :: s.detached }
  receiveSent
  return 0

/-- Runs a command, without regard to signals. -/
def perform (self : Runs) (m : Manner) : Command → Does Nat
  | .simple line assigned words streams => simple self m line assigned words streams
  | .pipeline cs detached =>
    if detached then detach self (stages self false cs none)
    else do
      let code ← stages self m.tested cs none
      receiveSent
      return code
  | .redirected line c streams => do
    modify fun s => { s with line }
    let redirections ← streams.mapM (Streams.ready self)
    Streams.restoring streams do
      if ← Streams.connectAll self redirections then self.command { m with isLast := false } c
      else return 2
  | .detached c streams =>
    detach self do
      Streams.redirect self streams
      self.command { isLast := true } c
  | .separate line c streams => do
    modify fun s => { s with line }
    let code ← separately self do
      Streams.redirect self streams
      self.command { m with isLast := true } c
    receiveSent
    return code
  | .both a b => do
    let code ← self.command { tested := true } a
    if code = 0 then self.command m b else return code
  | .either a b => do
    let code ← self.command { tested := true } a
    if code = 0 then return code else self.command m b
  | .sequence a b => do
    discard (self.command { m with isLast := false } a)
    self.command m b
  | .negation c => do
    let code ← self.command { tested := true } c
    return if code = 0 then 1 else 0
  | .choice test yes no => do
    let code ← self.command { tested := true } test
    if code = 0 then self.command m yes
    else
      match no with
      | some no => self.command m no
      | none => return 0
  | .loop whileFails test body => loop self m.tested whileFails test body mostRounds 0
  | .each line name items body => do
    modify fun s => { s with line }
    let words ← items.mapM (Expand.words self)
    each self m.tested name body words.flatten 0
  | .select line w clauses => do
    modify fun s => { s with line }
    match ← choose self (← Expand.text self w) clauses with
    | some c => self.command m c
    | none => return 0
  | .function name body => do
    modify fun s => { s with functions := (name, body) :: s.functions.filter (·.1 ≠ name) }
    return 0

/-- Whether the failure of a command can end the shell by itself. -/
def isDecisive : Command → Bool
  | .simple .. => true
  | .pipeline .. => true
  | .separate .. => true
  | .detached .. => true
  | _ => false

/-- Runs a command, and attends to signals before and after it. -/
def command (self : Runs) (m : Manner) (c : Command) : Does Nat := do
  if (← get).has 'n' then return 0
  attend self
  let code ← perform self m c
  modify fun s => { s with last := code }
  attend self
  if code ≠ 0 ∧ ¬ m.tested ∧ isDecisive c ∧ (← get).has 'e' then throw .exits
  return code

/-! Scripts. -/

/-- Runs the lines of a script. Tells how the last command ended. -/
def lines (self : Runs) (tested isFile : Bool) : (steps : Nat) → Source → Nat → Does Nat
  | 0, _, _ => throw .exhausted
  | n + 1, source, status => do
    let s ← get
    let source := { source with aliases := s.aliases, heres := s.heres }
    if isFile ∧ s.has 'i' then grumble ((s.value? (lit "PS1")).getD [])
    if source.isDone then
      if isFile ∧ s.has 'i' then grumble ['\n']
      return status
    match source.nextLine with
    | .error complaint =>
      modify fun s => { s with line := complaint.line }
      giveUp (lit "Syntax error: " ++ complaint.why.message)
    | .ok (c?, after) =>
      if isFile ∧ s.has 'v' then
        grumble (source.rest.take (source.rest.length - after.rest.length))
      modify fun s => { s with heres := after.heres, ahead := after.line }
      match c? with
      | none => lines self tested isFile n after status
      | some c => lines self tested isFile n after (← self.command { tested } c)

/-- Runs a script. A NUL in a file counts for nothing. -/
def script (self : Runs) (tested isFile : Bool) (t : Text) : Does Nat := do
  let ahead := (← get).ahead
  let rest := if isFile then t.filter (· ≠ '\x00') else t
  let result ← attempt (lines self tested isFile (rest.length + 2) { rest } 0)
  modify fun s => { s with ahead }
  match result with
  | .ok code => return code
  | .error stop => throw stop

end Run

end Quire.Shell
