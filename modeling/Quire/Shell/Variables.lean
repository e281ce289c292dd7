import Quire.Shell.Options

/-!
Variables that are listed, exported, fixed, taken away, and made local to a function.
-/

namespace Quire.Shell

namespace Variables

/-- The variables of a kind, in the order of their names. -/
def sorted (s : State) (isIn : Variable → Bool) : List (Text × Variable) :=
  (s.bindings.filter fun (_, v) => isIn v).mergeSort fun a b => !b.1.before a.1

/-- A variable as a line of a script that gives it its value. -/
def line (start : Text) (name : Text) (v : Variable) : Text :=
  let value := (v.value.map fun t => '=' :: inQuotes t).getD []
  start ++ name ++ value ++ ['\n']

/-- Lists all variables that have a value. -/
def list : Does Unit := do
  say ((sorted (← get) fun v => v.value.isSome).flatMap fun (name, v) => line [] name v)

/-- The name in a word, and the value if one follows. -/
def named (word : Text) : Text × Option Text :=
  match Text.cutFirst ['='] word with
  | some (name, value) => (name, some value)
  | none => (word, none)

/-- Refuses what is no name. -/
def checkName (name : Text) : Does Unit := do
  if !isName name then giveUp (name ++ lit ": bad variable name")

/-- Changes how a variable is marked. -/
def mark (name : Text) (change : Variable → Variable) : Does Unit :=
  modify fun s =>
    let v := (s.bindings.lookup name).getD {}
    { s with bindings := withVariable name (some (change v)) s.bindings }

/-- Marks the variables that words name, after they got the values that the words give, or lists
those that are marked. -/
def markAll (start : String) (isMarked : Variable → Bool) (change : Variable → Variable)
    (words : List Text) : Does Nat := do
  let (listing, names) ← Options.plain "p" words
  if listing = [] ∧ names ≠ [] then
    names.forM fun word => do
      let (name, value?) := named word
      if value?.isSome ∨ ((← get).bindings.lookup name).isNone then checkName name
      match value? with
      | some value => store name value
      | none => pure ()
      mark name change
  else
    say ((sorted (← get) isMarked).flatMap fun (name, v) => line (lit start ++ [' ']) name v)
  return 0

/-- Gives variables to the programs that are started. -/
def export' (words : List Text) : Does Nat :=
  markAll "export" (·.exported) (fun v => { v with exported := true }) words

/-- Keeps variables from being changed. -/
def fix (words : List Text) : Does Nat :=
  markAll "readonly" (·.fixed) (fun v => { v with fixed := true }) words

/-- Takes away a variable. -/
def remove (name : Text) : Does Unit := do
  checkName name
  if ((← get).bindings.lookup name).any (·.fixed) then giveUp (name ++ lit ": is read only")
  modify fun s => { s with bindings := withVariable name none s.bindings }

/-- Takes away variables or functions. -/
def unset (words : List Text) : Does Nat := do
  let (options, names) ← Options.plain "vf" words
  names.forM fun word => do
    if options.getLast? = some 'f' then
      modify fun s => { s with functions := s.functions.filter (·.1 ≠ word) }
    else remove (named word).1
  return 0

/-! Variables of a function. -/

/-- The name under which the options are remembered, which no variable can have. -/
def optionsName : Text := ['-']

/-- Remembers a variable, or the options, which are put back later. -/
def keep (name : Text) : Does Unit :=
  modify fun s =>
    let kept :=
      if name = optionsName then (name, some { value := some s.options })
      else (name, s.bindings.lookup name)
    match s.shadowed with
    | [] => s
    | frame :: outer => { s with shadowed := (kept :: frame) :: outer }

/-- Gives a variable a value for a while. -/
def assignHere (name value : Text) : Does Unit := do
  keep name
  store name value
  mark name fun v => { v with exported := true }

/-- Puts a variable back, or the options. -/
def putBack (name : Text) (v : Option Variable) : Does Unit :=
  modify fun s =>
    let value := (v.bind (·.value)).getD []
    if name = optionsName then { s with options := value }
    else
      let s := { s with bindings := withVariable name v s.bindings }
      if name = lit "OPTIND" then s.readOptionsFrom value else s

/-- Does something with room for variables of its own, which are put back afterwards. -/
def inside (does : Does α) : Does α := do
  modify fun s => { s with shadowed := [] :: s.shadowed }
  let result ← attempt does
  (((← get).shadowed.head?).getD []).forM fun (name, v) => putBack name v
  modify fun s => { s with shadowed := s.shadowed.tail }
  match result with
  | .ok a => return a
  | .error stop => throw stop

/-- Makes variables local to the present function. -/
def local' (words : List Text) : Does Nat := do
  if (← get).shadowed.isEmpty then giveUp (lit "not in a function")
  words.forM fun word => do
    let (name, value?) := named word
    let isKnown := word = optionsName || ((← get).bindings.lookup name).isSome
    if value?.isNone ∧ ¬ isKnown then checkName name
    keep name
    match value? with
    | some value => store name value
    | none => pure ()
  return 0

end Variables

end Quire.Shell
