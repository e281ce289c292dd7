import Quire.Shell.Variables

/-!
Settings of a shell: its options, each of which has a name and mostly a letter, and the permissions
that new files do not get.
-/

namespace Quire.Shell

namespace Settings

/-- The options, with their letters. For the last two nothing that can be typed stands. -/
def known : List (String × Char) :=
  [("errexit", 'e'), ("noglob", 'f'), ("ignoreeof", 'I'), ("interactive", 'i'), ("monitor", 'm'),
    ("noexec", 'n'), ("stdin", 's'), ("xtrace", 'x'), ("verbose", 'v'), ("vi", 'V'),
    ("emacs", 'E'), ("noclobber", 'C'), ("allexport", 'a'), ("notify", 'b'), ("nounset", 'u'),
    ("privileged", 'p'), ("nolog", '\x01'), ("debug", '\x02')]

/-- Whether a letter can be given for an option. -/
def isLetter (c : Char) : Bool := c.isAlpha && known.any fun (_, letter) => letter = c

/-- Sets an option by its letter. Of the two ways to edit lines, one excludes the other. -/
def setLetter (on : Bool) (c : Char) : Does Unit :=
  modify fun s =>
    let others := s.options.filter (· ≠ c)
    let others :=
      if on ∧ c = 'V' then others.filter (· ≠ 'E')
      else if on ∧ c = 'E' then others.filter (· ≠ 'V')
      else others
    { s with options := if on then c :: others else others }

/-- A text filled up with blanks. -/
def wide (n : Nat) (t : Text) : Text := t ++ List.replicate (n - t.length) ' '

/-- Lists the options and how they are set. -/
def table (isOn : Char → Bool) : Text :=
  lit "Current option settings\n" ++ known.flatMap fun (name, letter) =>
    wide 16 (lit name) ++ lit (if isOn letter then "on\n" else "off\n")

/-- The options as commands that set them. -/
def commands (isOn : Char → Bool) : Text :=
  known.flatMap fun (name, letter) =>
    lit (if isOn letter then "set -o " else "set +o ") ++ lit name ++ ['\n']

/-- Sets an option by its name, and gives its letter. -/
def setName (on : Bool) (name : Text) : Does Char := do
  match known.find? fun (n, _) => lit n = name with
  | some (_, c) =>
    setLetter on c
    return c
  | none => giveUp (lit "Illegal option -o " ++ name)

/-- What option words come to: the words behind them, whether two dashes ended them, and, where a
script can be given, whether one is. Options that were cleared are remembered. -/
structure Given where
  rest : List Text
  ended : Bool := false
  script : Bool := false
  cleared : List Char := []

/-- Sets or clears an option, and remembers that. -/
def Given.change (given : Given) (on : Bool) (c : Char) : Given :=
  let others := given.cleared.filter (· ≠ c)
  { given with cleared := if on then others else c :: others }

/-- Whether an option counts as set in a list of all. When a shell is started, those count of which
nothing was said. -/
def Given.isOn (given : Given) (starts : Bool) (s : State) (c : Char) : Bool :=
  if starts then !given.cleared.contains c else s.has c

/-- Sets options by the letters of one word. One of them takes the next word for a name. Some are
known only when a shell is started. -/
def setLetters (starts on : Bool) : Text → Given → Does Given
  | [], given => return given
  | c :: more, given => do
    if c = 'c' ∧ starts then setLetters starts on more { given with script := true }
    else if c = 'l' ∧ starts then setLetters starts on more given
    else if c = 'o' then
      match given.rest with
      | name :: rest =>
        let letter ← setName on name
        setLetters starts on more ({ given with rest }.change on letter)
      | [] =>
        say ((if on then table else commands) (given.isOn starts (← get)))
        setLetters starts on more given
    else if isLetter c then
      setLetter on c
      setLetters starts on more (given.change on c)
    else giveUp (lit "Illegal option -" ++ [c])

/-- Sets options by words. -/
def setAll (starts : Bool) : (steps : List Text) → Given → Does Given
  | [], given => return given
  | _ :: steps, given =>
    match given.rest with
    | ['-'] :: rest => do
      if !starts then
        setLetter false 'x'
        setLetter false 'v'
      return { given with rest }
    | ['-', '-'] :: rest => return { given with rest, ended := true }
    | ('-' :: letters) :: rest => do
      setAll starts steps (← setLetters starts true letters { given with rest })
    | ('+' :: letters) :: rest => do
      setAll starts steps (← setLetters starts false letters { given with rest })
    | _ => return given

/-- Sees to it that the shell does not control its jobs, for which it has no terminal. -/
def settle : Does Unit := do
  if (← get).has 'm' then
    complain (lit "can't access tty; job control turned off")
    setLetter false 'm'

/-- Sets options and the words of the script, or lists the variables. -/
def set (words : List Text) : Does Nat := do
  if words = [] then
    Variables.list
    return 0
  let given ← setAll false words { rest := words }
  settle
  if given.rest ≠ [] ∨ given.ended then
    modify fun s => { s with words := given.rest, optionIndex := 1, optionAt := none }
  return 0

/-! Permissions. -/

/-- The digits of a number to the base eight, four at least. -/
def octal (n : Nat) : Text :=
  let t := Nat.toDigits 8 n
  List.replicate (4 - t.length) '0' ++ t

/-- The permissions that a mask leaves to the owner, the group and others. -/
def letters (mask : Nat) : Text :=
  let left := 0o777 - mask
  let one (who : Char) (n : Nat) : Text :=
    let has (bit : Nat) (c : Char) : Text := if n / bit % 2 = 1 then [c] else []
    who :: '=' :: (has 4 'r' ++ has 2 'w' ++ has 1 'x')
  one 'u' (left / 64 % 8) ++ ',' :: one 'g' (left / 8 % 8) ++ ',' :: one 'o' (left % 8)

/-- Whom a letter stands for. -/
def who (c : Char) : Nat :=
  if c = 'u' then 0o100 else if c = 'g' then 0o010 else if c = 'o' then 0o001 else 0o111

/-- The permissions that a letter stands for, when these are given already. -/
def permission (given : Nat) (c : Char) : Nat :=
  match c with
  | 'r' => 4
  | 'w' => 2
  | 'x' => 1
  | 'u' => given / 64
  | 'g' => given / 8
  | 'o' => given
  | 'X' => if given &&& 0o111 = 0 then 0 else 1
  | _ => 0

/-- The permissions after a text changed them, if it is all read. -/
def changed (given : Nat) : (steps : Text) → (whom now : Nat) → Text → Option Nat
  | [], _, _, _ => none
  | _ :: steps, whom, now, t =>
    let people := t.takeWhile "augo".toList.contains
    let whom := people.foldl (fun n c => n ||| who c) whom
    let whom := if whom = 0 then 0o111 else whom
    match t.drop people.length with
    | [] => some now
    | sign :: rest =>
      if !"=+-".toList.contains sign then none
      else
        let names := rest.takeWhile "rwxugoXs".toList.contains
        let value := names.foldl (fun n c => n ||| permission given c) 0 % 8 * whom
        let now :=
          if sign = '-' then now - (now &&& value)
          else if sign = '=' then value ||| (now - (now &&& whom * 7))
          else now ||| value
        match rest.drop names.length with
        | [] => some now
        | ',' :: after => if after = [] then some now else changed given steps 0 now after
        | after => changed given steps whom now after

/-- Sets or tells the permissions that new files do not get. -/
def mask (words : List Text) : Does Nat := do
  let (options, rest) ← Options.plain "S" words
  let s ← get
  match rest with
  | [] =>
    say ((if options = [] then octal s.mask else letters s.mask) ++ ['\n'])
    return 0
  | t :: _ =>
    if t.head?.any Char.isDigit then
      if t.all fun c => '0' ≤ c && c ≤ '7' then
        let n := t.foldl (fun n c => 8 * n + (c.toNat - '0'.toNat)) 0
        MonadState.set { s with mask := n % 0o1000 }
        return 0
      else giveUp (lit "Illegal number: " ++ t)
    else
      match changed (0o777 - s.mask) (' ' :: t) 0 (0o777 - s.mask) t with
      | some left =>
        MonadState.set { s with mask := 0o777 - left % 0o1000 }
        return 0
      | none => giveUp (lit "Illegal mode: " ++ t)

end Settings

end Quire.Shell
