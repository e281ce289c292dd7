import Quire.Shell.Source

/-!
Reading the words of a shell script: quotes, and what is put in for parameters, commands and sums.
-/

namespace Quire.Shell

/-- What can be asked for wherever the grammar comes back to itself. -/
structure Rules where
  /-- Commands up to something that ends them. -/
  commands : Reads (Option Command)
  /-- One command. -/
  command : Reads Command
  /-- A word up to a closing brace, between double quotes or not. -/
  inBraces (quoted : Bool) : Reads Word

namespace Grammar

open Reads

/-- Puts neighbouring texts of a word together. -/
def joined : Word → Word
  | [] => []
  | .text t q :: rest =>
    match joined rest with
    | .text u r :: more =>
      if q = r then .text (t ++ u) q :: more else .text t q :: .text u r :: more
    | more => .text t q :: more
  | p :: rest => p :: joined rest

/-- Reads parts of a word as long as there are some, each with whatever it leaves. -/
def parts (part : Reads (Option Word)) : Reads Word := do
  let found ← loop (fun (found : List Word) => do
    match ← part with
    | some w => return (w :: found, true)
    | none => return (found, false)) []
  return joined found.reverse.flatten

/-- A character of a word. -/
def plain (c : Char) (quoted : Bool) : Word := [.text [c] quoted]

/-- The text up to a closing single quote. -/
def singleQuoted : Reads Word := do
  let s ← get
  match Text.cutFirst ['\''] s.rest with
  | none =>
    set { s with line := s.line + (s.rest.filter (· = '\n')).length }
    refuse .openQuote
  | some (inside, rest) =>
    set { s with rest, line := s.line + (inside.filter (· = '\n')).length }
    return [.mark] ++ (if inside = [] then [] else [.text inside true]) ++ [.mark]

/-- What a backslash outside of quotes makes of the next character. -/
def escaped : Reads Word := do
  match ← take? with
  | some c => return plain c true
  | none => return plain '\\' true

/-- What a backslash between double quotes makes of the next character. It stands for itself before
a character that has no other meaning there. -/
def escapedInQuotes (special : List Char) : Reads Word := do
  match ← take? with
  | some c => return if special.contains c then plain c true else [.text ['\\', c] true]
  | none => return plain '\\' true

/-- The signs that name parameters. -/
def isSign (c : Char) : Bool := c.isDigit || "@*#?-$!".toList.contains c

/-- The way in which a parameter is used, by its sign, if a colon is before it or not. -/
def useOf? (c : Char) : Option Use :=
  match c with
  | '\x7d' => some .value
  | '-' => some .orElse
  | '+' => some .andThen
  | '?' => some .demand
  | '=' => some .assign
  | _ => none

/-- How a parameter in braces is used, behind its name. -/
def use : Reads (Use × Bool) := do
  match ← next? with
  | some ':' => return (((← next?).bind useOf?).getD .unknown, true)
  | some '%' => return (.cut true (← eat '%'), false)
  | some '#' => return (.cut false (← eat '#'), false)
  | some c => return ((useOf? c).getD .unknown, false)
  | none => return (.unknown, false)

/-- The name and the use of a parameter in braces that begins with a number sign: the length of
another one, or the count of the words. -/
def afterNumberSign : Reads (Text × Use × Bool) := do
  let s ← get
  match ← next? with
  | none => return (['#'], .unknown, false)
  | some c =>
    if isInName c then
      let name ←
        if c.isDigit then pure (c :: (← takeWhile Char.isDigit))
        else pure (c :: (← takeWhile isInName))
      return (name, if (← peek?) = some '\x7d' then .length else .unknown, false)
    else if c ≠ '\x7d' ∧ (← peek?) = some '\x7d' then
      return ([c], if isSign c then .length else .unknown, false)
    else
      set s
      let (u, orNull) ← use
      return (['#'], u, orNull)

/-- A parameter in braces, behind the first one. -/
def braced (self : Rules) (quoted : Bool) : Reads Part := do
  let (name, u, orNull) ← do
    match ← peek? with
    | none => pure ([], Use.unknown, false)
    | some c =>
      if beginsName c then
        let name ← takeWhile isInName
        let (u, orNull) ← use
        pure (name, u, orNull)
      else if c.isDigit then
        let name ← takeWhile Char.isDigit
        let (u, orNull) ← use
        pure (name, u, orNull)
      else if c = '#' then
        discard next?
        afterNumberSign
      else if isSign c then
        discard next?
        let (u, orNull) ← use
        pure ([c], u, orNull)
      else
        if c ≠ '\x7d' then discard next?
        pure ([], Use.unknown, false)
  if u = .value ∧ ¬ orNull then return .parameter name u orNull [] quoted
  let inQuotes := quoted && !(u matches .cut ..)
  return .parameter name u orNull (← self.inBraces inQuotes) quoted

/-- The text up to a closing backquote, without the backslashes that protect what is special. -/
def backquotedText (quoted : Bool) : Reads Text := do
  let found ← loop (fun (found : Text) => do
    match ← next? with
    | none => refuse .openBackquote
    | some '\x60' => return (found, false)
    | some '\\' =>
      match ← take? with
      | none => return ('\\' :: found, true)
      | some c =>
        let isSpecial := c = '\\' || c = '\x60' || c = '$' || (quoted && c = '"')
        return (if isSpecial then c :: found else c :: '\\' :: found, true)
    | some c => return (c :: found, true)) []
  return found.reverse

/-- A command between backquotes, behind the first one. It is a script of its own. -/
def backquoted (self : Rules) (quoted : Bool) : Reads Part := do
  let t ← backquotedText quoted
  let s ← get
  set { s with rest := t, line := 1, awaited := [] }
  let c ← self.commands
  let inner ← get
  set { s with heres := inner.heres }
  return .written c quoted

/-- An arithmetic expression up to its two closing parentheses. -/
def sum (dollar : Bool → Reads Word) (backquote : Bool → Reads Part) : Reads Word := do
  let found ← loop (fun ((found : List Word), depth) => do
    match ← next? with
    | none => refuse .openSum
    | some '(' => return ((plain '(' true :: found, depth + 1), true)
    | some ')' =>
      if depth > 0 then return ((plain ')' true :: found, depth - 1), true)
      else if ← eat ')' then return ((found, depth), false)
      else return ((plain ')' true :: found, depth), true)
    | some '\\' => return (((← escapedInQuotes ['\\', '\x60', '$', '"']) :: found, depth), true)
    | some '$' => return (((← dollar true) :: found, depth), true)
    | some '\x60' => return (([← backquote true] :: found, depth), true)
    | some c => return ((plain c true :: found, depth), true)) ([], 0)
  return joined found.1.reverse.flatten

/-- What a dollar sign stands for, at most so deep in sums. -/
def dollar (self : Rules) : (depth : Nat) → (quoted : Bool) → Reads Word
  | 0, _ => refuse .tooDeep
  | n + 1, quoted => do
    match ← peek? with
    | none => return plain '$' quoted
    | some c =>
      if c = '(' then
        discard next?
        if ← eat '(' then return [.sum (← sum (dollar self n) (backquoted self)) quoted]
        let awaited := (← get).awaited
        modify fun s => { s with awaited := [] }
        let inner ← self.commands
        match (← get).putBack with
        | some .closing => modify fun s => { s with putBack := none, awaited }
        | some t => refuse (.unexpected t (some .closing))
        | none => refuse (.unexpected .ending (some .closing))
        return [.written inner quoted]
      else if c = '\x7b' then
        discard next?
        return [← braced self quoted]
      else if beginsName c then return [.parameter (← takeWhile isInName) .value false [] quoted]
      else if isSign c then
        discard next?
        return [.parameter [c] .value false [] quoted]
      else return plain '$' quoted

/-- What a dollar sign stands for. -/
def put (self : Rules) (quoted : Bool) : Reads Word := do
  dollar self ((← get).rest.length + 2) quoted

/-- The characters that a backslash protects between double quotes. -/
def quotable (inBraces : Bool) : List Char :=
  ['\\', '\x60', '$', '"'] ++ if inBraces then ['\x7d'] else []

/-- The word up to a closing double quote. Nothing between quotes is what a "$@" between the same
quotes leaves if there are no words. -/
def doubleQuoted (self : Rules) (inBraces : Bool) : Reads Word := do
  let w ← parts do
    match ← next? with
    | none => refuse .openQuote
    | some '"' => return none
    | some '\\' => return some (← escapedInQuotes (quotable inBraces))
    | some '$' => return some (← put self true)
    | some '\x60' => return some [← backquoted self true]
    | some c => return some (plain c true)
  match w with
  | [.parameter ['@'] .value false [] _] => return w
  | _ => return [.mark] ++ w ++ [.mark]

/-- A word up to a closing brace, outside of double quotes. -/
def bracedPlain (self : Rules) : Reads Word :=
  parts do
    match ← next? with
    | none => refuse .openBrace
    | some '\x7d' => return none
    | some '\\' => return some (← escaped)
    | some '\'' => return some (← singleQuoted)
    | some '"' => return some (← doubleQuoted self true)
    | some '$' => return some (← put self false)
    | some '\x60' => return some [← backquoted self false]
    | some c => return some (plain c false)

/-- A word up to a closing brace, between double quotes. Further quotes come in pairs, and a brace
between them closes nothing. -/
def bracedQuoted (self : Rules) : Reads Word := do
  let (found, _) ← loop (fun ((found : List Word), inner) => do
    match ← next? with
    | none => refuse .openQuote
    | some '\x7d' =>
      if inner then return ((plain '\x7d' true :: found, inner), true)
      else return ((found, inner), false)
    | some '"' => return (([.mark] :: found, !inner), true)
    | some '\\' => return (((← escapedInQuotes (quotable true)) :: found, inner), true)
    | some '$' => return (((← put self true) :: found, inner), true)
    | some '\x60' => return (([← backquoted self true] :: found, inner), true)
    | some c => return ((plain c true :: found, inner), true)) ([], false)
  return joined found.reverse.flatten

/-- A word up to a closing brace. -/
def inBraces (self : Rules) (quoted : Bool) : Reads Word :=
  if quoted then bracedQuoted self else bracedPlain self

/-- Whether a character ends a word outside of quotes. -/
def endsWord (c : Char) : Bool := isBlank c || "\n<>();&|".toList.contains c

/-- A word, and whether something in it is quoted. Where a word ends a text for a stream, nothing is
put into it. -/
def word (self : Rules) (isEnding : Bool) : Reads (Word × Bool) := do
  let (found, quoted) ← loop (fun ((found : List Word), quoted) => do
    match ← peek? with
    | none => return ((found, quoted), false)
    | some c =>
      if endsWord c then return ((found, quoted), false)
      discard next?
      if c = '\\' then return (((← escaped) :: found, true), true)
      else if c = '\'' then return (((← singleQuoted) :: found, true), true)
      else if c = '"' then return (((← doubleQuoted self false) :: found, true), true)
      else if c = '$' ∧ ¬ isEnding then return (((← put self false) :: found, quoted), true)
      else if c = '\x60' ∧ ¬ isEnding then
        return (([← backquoted self false] :: found, quoted), true)
      else return ((plain c false :: found, quoted), true)) ([], false)
  return (joined found.reverse.flatten, quoted)

/-- What a text for a stream is made of. -/
def hereWord (self : Rules) : Reads Word :=
  parts do
    match ← next? with
    | none => return none
    | some '\\' => return some (← escapedInQuotes ['\\', '\x60', '$'])
    | some '$' => return some (← put self true)
    | some '\x60' => return some [← backquoted self true]
    | some c => return some (plain c true)

/-- Takes the awaited texts out of the script, behind the end of a line. -/
def takeHeres (self : Rules) : Reads Unit := do
  let awaited := (← get).awaited
  modify fun s => { s with awaited := [] }
  awaited.forM fun a => do
    let t ← hereText a
    let w ←
      if a.expands then
        let s ← get
        set { s with rest := t, putBack := none }
        let w ← hereWord self
        let inner ← get
        set { s with heres := inner.heres }
        pure w
      else pure [Part.text t true]
    modify fun s => { s with heres := s.heres ++ [(a.number, w)] }

end Grammar

end Quire.Shell
