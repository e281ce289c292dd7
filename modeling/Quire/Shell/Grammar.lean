import Quire.Shell.Words

/-!
The grammar of shell scripts. A script is read line by line, so that what is wrong in a later line
does not keep the lines before it from being run. Main statement: `Source.nextLine`.
-/

namespace Quire.Shell

namespace Grammar

open Reads

/-! Tokens. -/

/-- The words that the grammar knows. -/
def keywords : List Text :=
  ["!", "case", "do", "done", "elif", "else", "esac", "fi", "for", "if", "in", "then", "until",
    "while", "\x7b", "\x7d"].map lit

/-- The token of a sign, behind its first character. -/
def sign (c : Char) : Reads Token := do
  if c = '\n' then return .newline
  else if c = '&' then return if ← eat '&' then .both else .detach
  else if c = '|' then return if ← eat '|' then .either else .pipe
  else if c = ';' then return if ← eat ';' then .clauseEnd else .semicolon
  else if c = '(' then return .opening
  else return .closing

/-- The sign of a redirection. -/
def redirectionSign (c : Char) : Reads Text := do
  if c = '>' then
    if ← eat '>' then return lit ">>"
    if ← eat '|' then return lit ">|"
    if ← eat '&' then return lit ">&"
    return lit ">"
  else
    if ← eat '<' then return if ← eat '-' then lit "<<-" else lit "<<"
    if ← eat '&' then return lit "<&"
    if ← eat '>' then return lit "<>"
    return lit "<"

/-- Passes by blanks and a comment. -/
def skipBlanks : Reads Unit := do
  discard (takeWhile isBlank)
  if (← peek?) = some '#' then modify fun s => { s with rest := s.rest.dropWhile (· ≠ '\n') }

/-- The next token of the script. -/
def fresh (self : Rules) (isEnding : Bool) : Reads Token := do
  skipBlanks
  match ← peek? with
  | none => return .ending
  | some c =>
    if "\n&|;()".toList.contains c then
      discard next?
      sign c
    else
      let (w, quoted) ← word self isEnding
      let stream? : Option (Option Nat) :=
        if quoted then none
        else
          match w with
          | [] => some none
          | [.text [d] false] => if d.isDigit then some (digits? [d]) else none
          | _ => none
      match stream?, ← peek? with
      | some stream, some d =>
        if d = '<' ∨ d = '>' then
          discard next?
          return .redirection stream (← redirectionSign d)
        else return .word w quoted
      | _, _ => return .word w quoted

/-- The next token, which may have been put back. -/
def raw (self : Rules) (isEnding : Bool) : Reads Token := do
  match (← get).putBack with
  | some t =>
    modify fun s => { s with putBack := none }
    return t
  | none => fresh self isEnding

/-- Puts a token back. -/
def putBack (t : Token) : Reads Unit := modify fun s => { s with putBack := some t }

/-- What is expected of a token: whether the ends of lines before it are passed by, and whether a
word may be one that the grammar knows, or another word for a command. -/
structure Expected where
  passesLines : Bool := false
  knows : Bool := false
  replaces : Bool := false

/-- Anything a command can begin with. -/
def Expected.start : Expected := ⟨false, true, true⟩

/-- The same, perhaps in a later line. -/
def Expected.later : Expected := ⟨true, true, true⟩

/-- The other word for a command, if there is one that is not being put in already. -/
def alias? (t : Text) : Reads (Option Text) := do
  let s ← get
  let left := s.rest.length
  let open' := s.putIn.filter fun (_, behind) => behind < left
  set { s with putIn := open' }
  if open'.any (·.1 = t) then return none
  return s.aliases.lookup t

/-- The next token. A word that was put back is not replaced again. -/
def token (self : Rules) (e : Expected) : Reads Token :=
  loop (fun _ => do
    let isNew := (← get).putBack.isNone
    let t ← raw self false
    match t with
    | .newline =>
      if e.passesLines then
        takeHeres self
        return (t, true)
      else return (t, false)
    | .word w false =>
      match Part.plainText? w with
      | none => return (t, false)
      | some plain =>
        if e.knows ∧ keywords.contains plain then return (.keyword plain, false)
        if ¬ e.replaces ∨ ¬ isNew ∨ (← get).aliases.isEmpty then return (t, false)
        match ← alias? plain with
        | none => return (t, false)
        | some other =>
          modify fun s =>
            { s with rest := other ++ s.rest, putIn := (plain, s.rest.length) :: s.putIn }
          return (t, true)
    | _ => return (t, false)) .ending

/-- Whether a token is a word that the grammar knows. -/
def Token.isKeyword (t : Token) (k : String) : Bool :=
  match t with
  | .keyword u => u = lit k
  | _ => false

/-- Whether a token ends the commands inside something. -/
def endsCommands (t : Token) : Bool :=
  match t with
  | .ending => true
  | .newline => true
  | .closing => true
  | .clauseEnd => true
  | .keyword k =>
    ["do", "done", "elif", "else", "esac", "fi", "then", "\x7d"].any fun s => k = lit s
  | _ => false

/-- Reads a word of the grammar, which has to come next. -/
def expectKeyword (self : Rules) (e : Expected) (k : String) : Reads Unit := do
  let t ← token self e
  unless Token.isKeyword t k do refuse (.unexpected t (some (.keyword (lit k))))

/-! Redirections. -/

/-- A redirection behind its sign. -/
def redirection (self : Rules) (stream : Option Nat) (sign : Text) : Reads Redirection := do
  let isHere := sign = lit "<<" || sign = lit "<<-"
  let t ← raw self isHere
  let .word w quoted := t | refuse (.unexpected t none)
  if isHere then
    let s ← get
    let number := s.heres.length + s.awaited.length
    let ending : Text := w.flatMap fun
      | .text t _ => t
      | _ => []
    let awaited : Awaited := ⟨number, ending, sign = lit "<<-", !quoted⟩
    set { s with awaited := s.awaited ++ [awaited] }
    return .here (stream.getD 0) number
  else if sign = lit ">&" then return .copy (stream.getD 1) w
  else if sign = lit "<&" then return .copy (stream.getD 0) w
  else if sign = lit ">" then return .file (stream.getD 1) .output w
  else if sign = lit ">>" then return .file (stream.getD 1) .append w
  else if sign = lit ">|" then return .file (stream.getD 1) .clobber w
  else if sign = lit "<>" then return .file (stream.getD 0) .both w
  else return .file (stream.getD 0) .input w

/-- The redirections behind a command. -/
def redirections (self : Rules) : Reads (List Redirection) := do
  let found ← loop (fun found => do
    match ← token self .start with
    | .redirection stream sign => return ((← redirection self stream sign) :: found, true)
    | t =>
      putBack t
      return (found, false)) []
  return found.reverse

/-! Commands. -/

/-- The commands that belong to the shell itself in such a way that no function can have their
names. -/
def specialNames : List Text :=
  [".", ":", "break", "continue", "eval", "exec", "exit", "export", "local", "readonly", "return",
    "set", "shift", "times", "trap", "unset"].map lit

/-- What was read of a simple command. -/
structure Simple where
  assigned : List Word := []
  words : List Word := []
  streams : List Redirection := []

/-- A function behind its name and the parenthesis after it. -/
def function (self : Rules) (name : Word) : Reads Command := do
  let t ← token self {}
  unless t matches .closing do refuse (.unexpected t (some .closing))
  match Part.plainText? name with
  | none => refuse .badFunctionName
  | some plain =>
    if !isName plain || specialNames.contains plain then refuse .badFunctionName
    let t ← token self .later
    putBack t
    return .function plain (← self.command)

/-- A command of words, assignments and redirections, or a function. -/
def simple (self : Rules) : Reads Command := do
  let line := (← get).line
  let (read, defined) ← loop (fun ((c : Simple), (_ : Option Command)) => do
    let e : Expected := ⟨false, false, c.words.isEmpty⟩
    let t ← token self e
    match t with
    | .word w _ =>
      if c.words.isEmpty ∧ (Part.assignment? w).isSome then
        return (({ c with assigned := c.assigned ++ [w] }, none), true)
      else return (({ c with words := c.words ++ [w] }, none), true)
    | .redirection stream sign =>
      return (({ c with streams := c.streams ++ [← redirection self stream sign] }, none), true)
    | .opening =>
      match c with
      | ⟨[], [name], []⟩ => return ((c, some (← function self name)), false)
      | _ =>
        putBack t
        return ((c, none), false)
    | _ =>
      putBack t
      return ((c, none), false)) ({}, none)
  match defined with
  | some f => return f
  | none => return .simple line read.assigned read.words read.streams

/-- A pipeline, which may be turned into its opposite. -/
def pipeline (self : Rules) (e : Expected) : Reads Command := do
  let t ← token self e
  let negated := Token.isKeyword t "!"
  unless negated do putBack t
  let command (e : Expected) : Reads Command := do
    putBack (← token self e)
    self.command
  let first ← command .start
  let stages ← loop (fun stages => do
    let t ← token self {}
    match t with
    | .pipe => return ((← command .later) :: stages, true)
    | _ =>
      putBack t
      return (stages, false)) [first]
  let c :=
    match stages with
    | [_] => first
    | _ => Command.pipeline stages.reverse false
  return if negated then .negation c else c

/-- Pipelines of which the later ones depend on how the earlier ones ended. -/
def dependent (self : Rules) (e : Expected) : Reads Command := do
  let first ← pipeline self e
  loop (fun c => do
    let t ← token self {}
    match t with
    | .both => return (.both c (← pipeline self .later), true)
    | .either => return (.either c (← pipeline self .later), true)
    | _ =>
      putBack t
      return (c, false)) first

/-- A command that is not waited for. -/
def detach : Command → Command
  | .pipeline stages _ => .pipeline stages true
  | .redirected _ inner streams => .detached inner streams
  | c => .detached c []

/-- Two commands one after the other, of which the first may be missing. -/
def follow (first : Option Command) (second : Command) : Option Command :=
  match first with
  | none => some second
  | some c => some (.sequence c second)

/-- Commands inside something, up to what ends it, which is put back. There may have to be one. -/
def inside (self : Rules) (needed : Bool) : Reads (Option Command) :=
  loop (fun (found : Option Command) => do
    let t ← token self .later
    putBack t
    if (t matches .ending) ∨ (endsCommands t ∧ (¬ needed ∨ found.isSome)) then
      if t matches .ending then takeHeres self
      return (found, false)
    let c ← dependent self .start
    let t ← token self {}
    match t with
    | .detach => return (follow found (detach c), true)
    | .semicolon => return (follow found c, true)
    | .newline =>
      putBack t
      return (follow found c, true)
    | .ending =>
      takeHeres self
      putBack t
      return (follow found c, false)
    | _ =>
      putBack t
      return (follow found c, false)) none

/-- One command at least, up to the given word or another one that ends commands. -/
def upTo (self : Rules) (wanted : Token) : Reads Command := do
  match ← inside self true with
  | some c => return c
  | none => refuse (.unexpected .ending (some wanted))

/-- The same up to a word of the grammar. -/
def upToWord (self : Rules) (wanted : String) : Reads Command := upTo self (.keyword (lit wanted))

/-- The rest of a choice behind its first word. -/
def choice (self : Rules) : (depth : Nat) → Reads Command
  | 0 => refuse .tooDeep
  | n + 1 => do
    let test ← upToWord self "then"
    expectKeyword self {} "then"
    let yes ← upToWord self "fi"
    let t ← token self {}
    if Token.isKeyword t "elif" then return .choice test yes (some (← choice self n))
    else if Token.isKeyword t "else" then return .choice test yes (some (← upToWord self "fi"))
    else
      putBack t
      return .choice test yes none

/-- The words that a loop goes over, up to the end of their line. -/
def items (self : Rules) : Reads (List Word) := do
  let found ← loop (fun found => do
    let t ← token self {}
    match t with
    | .word w _ => return (w :: found, true)
    | .newline => return (found, false)
    | .semicolon => return (found, false)
    | _ => refuse (.unexpected t none)) []
  return found.reverse

/-- A loop over words behind its first word. Without words of its own it goes over those that the
script was started with. -/
def each (self : Rules) (line : Nat) : Reads Command := do
  let named? : Option Text :=
    match ← token self {} with
    | .word w false => (Part.plainText? w).filter isName
    | _ => none
  match named? with
  | none => refuse .badLoopName
  | some name =>
    let t ← token self .later
    let words ←
      if Token.isKeyword t "in" then items self
      else
        unless t matches .semicolon do putBack t
        pure [[.parameter ['@'] .value false [] true]]
    expectKeyword self .later "do"
    return .each line name words (← upToWord self "done")

/-- The patterns of a clause, up to the parenthesis behind them. -/
def patterns (self : Rules) (first : Token) : Reads (List Word) := do
  let wordOf (t : Token) : Word :=
    match t with
    | .word w _ => w
    | .keyword k => [.text k false]
    | _ => []
  let found ← loop (fun found => do
    let t ← token self {}
    match t with
    | .pipe => return (wordOf (← token self {}) :: found, true)
    | .closing => return (found, false)
    | _ => refuse (.unexpected t (some .closing))) [wordOf first]
  return found.reverse

/-- What a choice among words begins a clause with. -/
def clauseStart : Expected := ⟨true, true, false⟩

/-- A choice among words behind its first word. -/
def select (self : Rules) (line : Nat) : Reads Command := do
  let t ← token self {}
  let .word w _ := t | refuse (.unexpected t (some (.word [] false)))
  expectKeyword self .later "in"
  let clauses ← loop (fun clauses => do
    let t ← token self clauseStart
    if Token.isKeyword t "esac" then return (clauses, false)
    let first ← if t matches .opening then token self {} else pure t
    let alternatives ← patterns self first
    let body ← inside self false
    let clauses := (alternatives, body) :: clauses
    let t ← token self clauseStart
    if Token.isKeyword t "esac" then return (clauses, false)
    unless t matches .clauseEnd do refuse (.unexpected t (some .clauseEnd))
    return (clauses, true)) []
  return .select line w clauses.reverse

/-- Puts redirections behind a command to it. -/
def redirected (line : Nat) (c : Command) (streams : List Redirection) : Command :=
  match streams, c with
  | [], _ => c
  | _, .separate l inner _ => .separate l inner streams
  | _, _ => .redirected line c streams

/-- One command. -/
def command (self : Rules) : Reads Command := do
  let line := (← get).line
  let t ← raw self false
  let closed (c : Command) (closing : String) : Reads Command := do
    expectKeyword self {} closing
    return c
  let compound (read : Reads Command) : Reads Command := do
    let c ← read
    return redirected line c (← redirections self)
  match t with
  | .keyword k =>
    if k = lit "if" then
      compound do closed (← choice self ((← get).rest.length + 2)) "fi"
    else if k = lit "while" ∨ k = lit "until" then
      compound do
        let test ← upToWord self "do"
        expectKeyword self {} "do"
        closed (.loop (k = lit "until") test (← upToWord self "done")) "done"
    else if k = lit "for" then compound do closed (← each self line) "done"
    else if k = lit "case" then compound (select self line)
    else if k = lit "\x7b" then compound do closed (← upToWord self "\x7d") "\x7d"
    else refuse (.unexpected t none)
  | .opening =>
    compound do
      let inner ← upTo self .closing
      let t ← token self {}
      unless t matches .closing do refuse (.unexpected t (some .closing))
      return .separate line inner []
  | .word .. =>
    putBack t
    simple self
  | .redirection .. =>
    putBack t
    simple self
  | _ => refuse (.unexpected t none)

/-- The commands of a line. Nothing comes of an empty one. -/
def line (self : Rules) : Reads (Option Command) := do
  let t ← token self .start
  match t with
  | .newline =>
    takeHeres self
    return none
  | .ending => return none
  | _ =>
    putBack t
    loop (fun (found : Option Command) => do
      let t ← token self .start
      match t with
      | .newline =>
        takeHeres self
        return (found, false)
      | .ending =>
        takeHeres self
        putBack t
        return (found, false)
      | _ =>
        putBack t
        let c ← dependent self .start
        let t ← token self {}
        match t with
        | .detach => return (follow found (detach c), true)
        | .semicolon => return (follow found c, true)
        | .newline =>
          putBack t
          return (follow found c, true)
        | .ending =>
          putBack t
          return (follow found c, true)
        | _ => refuse (.unexpected t none)) none

/-- The grammar, nested at most so deep. -/
def rules : (depth : Nat) → Rules
  | 0 => ⟨refuse .tooDeep, refuse .tooDeep, fun _ => refuse .tooDeep⟩
  | n + 1 =>
    { commands := inside (rules n) false
      command := command (rules n)
      inBraces := fun quoted => inBraces (rules n) quoted }

end Grammar

/-- Whether nothing is left of a script. -/
def Source.isDone (s : Source) : Bool :=
  s.rest.isEmpty && !s.putBack.any fun t => !t matches .ending

/-- Reads the commands of the next line of a script. -/
def Source.nextLine (s : Source) : Except Complaint (Option Command × Source) :=
  let size := s.aliases.foldl (fun size (_, t) => size + t.length) s.rest.length
  (Grammar.line (Grammar.rules (4 * size + 8))).run s

end Quire.Shell
