import Quire.Shell.Sum
import Quire.Shell.State

/-!
What the words behind a command of the shell's own say: options, which come first, and numbers.
-/

namespace Quire.Shell

namespace Options

/-- Reads the letters of one word, some of which stand alone and some of which take a value: what is
left of the word, or the next word. -/
def letters (plain valued : List Char) :
    Text → List Text → Does (List (Char × Text) × List Text)
  | [], rest => return ([], rest)
  | c :: more, rest => do
    if plain.contains c then
      let (options, rest) ← letters plain valued more rest
      return ((c, []) :: options, rest)
    else if valued.contains c then
      match more, rest with
      | _ :: _, _ => return ([(c, more)], rest)
      | [], value :: rest => return ([(c, value)], rest)
      | [], [] => giveUp (lit "No arg for -" ++ [c] ++ lit " option")
    else giveUp (lit "Illegal option -" ++ [c])

/-- Reads the options that words begin with, and gives also the words behind them. -/
def read (plain valued : String) :
    (steps : List Text) → List Text → Does (List (Char × Text) × List Text)
  | _ :: steps, ('-' :: c :: more) :: rest => do
    if c = '-' ∧ more = [] then return ([], rest)
    let (here, rest) ← letters plain.toList valued.toList (c :: more) rest
    let (options, rest) ← read plain valued steps rest
    return (here ++ options, rest)
  | _, words => return ([], words)

/-- The words behind options, of which there may be none. -/
def none' (words : List Text) : Does (List Text) := return (← read "" "" words words).2

/-- The letters of plain options, and the words behind them. -/
def plain (known : String) (words : List Text) : Does (List Char × List Text) := do
  let (options, rest) ← read known "" words words
  return (options.map (·.1), rest)

/-- A number that counts something. -/
def count (t : Text) : Does Nat :=
  match Sum.decimal? t with
  | some n => if 0 ≤ n ∧ n < Nat.pow 2 31 then return n.toNat else giveUp (lit "Illegal number: " ++ t)
  | none => giveUp (lit "Illegal number: " ++ t)

end Options

end Quire.Shell
