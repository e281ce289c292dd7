import Quire.Shell.Fields
import Quire.Shell.Options

/-!
What a script takes in: lines of its input, cut into fields, and the options among its words.
-/

namespace Quire.Shell

namespace Input

/-- Reads a line, at most so many characters. Behind a backslash a character counts as itself, and
the end of a line as nothing, unless backslashes count as themselves. Tells also whether the end of
the line was met. -/
def line (raw : Bool) : (most : Nat) → (back : List Glyph) → Does (List Glyph × Bool)
  | 0, _ => throw .exhausted
  | n + 1, back => do
    match ← readFrom? 0 with
    | none => return (back.reverse, false)
    | some '\n' => return (back.reverse, true)
    | some '\x00' => line raw n back
    | some c =>
      if raw ∨ c ≠ '\\' then line raw n (.char c false true :: back)
      else
        match ← readFrom? 0 with
        | none => return (back.reverse, false)
        | some '\n' => line raw n back
        | some c => line raw n (.char c true false :: back)

/-- How many characters a line may have. -/
def longest : Nat := 1000000

/-- Gives the fields of a line to variables. The last of them gets all that is left, and those for
which there is no field get nothing. -/
def give : List Text → List (List Glyph) → Does Unit
  | [], _ => return
  | name :: names, fields => do
    if !isName name then giveUp (name ++ lit ": bad variable name")
    let value := ((fields.head?).getD []).filterMap fun
      | .char c _ _ => some c
      | _ => none
    store name value
    give names fields.tail

/-- Reads a line into variables. -/
def read (words : List Text) : Does Nat := do
  let (options, names) ← Options.read "r" "p" words words
  if names = [] then giveUp (lit "arg count")
  let (glyphs, isWhole) ← line (options.any (·.1 = 'r')) longest []
  give names (fields (← get).separators (some names.length) glyphs)
  return if isWhole then 0 else 1

/-! Options of scripts. -/

/-- Whether a letter is an option, and whether one with a value. -/
def known? (letter : Char) : Text → Option Bool
  | [] => none
  | c :: rest =>
    if c = letter ∧ c ≠ ':' then some (rest.head? = some ':')
    else known? letter rest

/-- What the reading of one option comes to: the letter that stands for it, its value, what is
wrong, the next word, and where in the word before that the reading stands. -/
structure Found where
  letter : Char := '?'
  value : Option Text := none
  complaint : Text := []
  isDone : Bool := false
  index : Nat
  place : Option Nat := none

/-- Reads one option: its letter, and what follows it in its word. The next word is given by its
index, beginning with one. -/
def option (known : Text) (words : List Text) (index : Nat) (c : Char) (rest : Text) : Found :=
  let isQuiet := known.head? = some ':'
  let place := ((words[index - 2]?).getD []).length - rest.length
  let refuse (letter : Char) (why : Text) : Found :=
    let found : Found := { index, place := some place }
    if isQuiet then { found with letter, value := some [c] }
    else { found with complaint := why }
  match known? c known with
  | none => refuse '?' (lit "Illegal option -" ++ [c, '\n'])
  | some false => { letter := c, value := some [], index, place := some place }
  | some true =>
    match rest, words[index - 1]? with
    | _ :: _, _ => { letter := c, value := some rest, index }
    | [], some value => { letter := c, value := some value, index := index + 1 }
    | [], none => refuse ':' (lit "No arg for -" ++ [c] ++ lit " option\n")

/-- Reads the next option of words, from where the reading stands. -/
def next (known : Text) (words : List Text) (index : Nat) (place : Option Nat) : Found :=
  let here : Text :=
    match place with
    | some k => if index ≤ 1 then [] else ((words[index - 2]?).getD []).drop k
    | none => []
  match here with
  | c :: rest => option known words index c rest
  | [] =>
    match words[index - 1]? with
    | some ['-', '-'] => { isDone := true, index := index + 1 }
    | some ('-' :: c :: rest) => option known words (index + 1) c rest
    | _ => { isDone := true, index }

/-- Reads one option of the script's own words, or of those that are given. -/
def options (words : List Text) : Does Nat := do
  match ← Options.none' words with
  | known :: name :: given =>
    let s ← get
    let among := if given = [] then s.words else given
    let restart := s.optionIndex > among.length + 1
    let found :=
      next known among (if restart then 1 else s.optionIndex) (if restart then none else s.optionAt)
    grumble found.complaint
    match found.value with
    | some value => store (lit "OPTARG") value
    | none =>
      if !found.isDone then
        modify fun s => { s with bindings := withVariable (lit "OPTARG") none s.bindings }
    store (lit "OPTIND") (Text.ofNat found.index)
    if !isName name then giveUp (name ++ lit ": bad variable name")
    store name [found.letter]
    modify fun s => { s with optionIndex := found.index, optionAt := found.place }
    return if found.isDone then 1 else 0
  | _ => giveUp (lit "Usage: getopts optstring var [arg...]")

end Input

end Quire.Shell
