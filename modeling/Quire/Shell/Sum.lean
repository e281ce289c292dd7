import Quire.Shell.Bytes

/-!
Arithmetic in a shell: whole numbers of 64 bits, with names for variables that can also be stored
to. A sum that is not needed stores nothing.
-/

namespace Quire.Shell

namespace Sum

/-- Why a sum has no value. -/
inductive Fault
  /-- Something else should come next. -/
  | expecting (what : String)
  | divisionByZero
  /-- A variable does not hold a number. -/
  | illegalNumber (t : Text)

/-- The wording of a fault in the given expression. -/
def Fault.message (expression : Text) : Fault → Text
  | .expecting what => about (lit "expecting " ++ lit what)
  | .divisionByZero => about (lit "division by zero")
  | .illegalNumber t => lit "Illegal number: " ++ t
where
  /-- A complaint about the whole expression. -/
  about (t : Text) : Text :=
    lit "arithmetic expression: " ++ t ++ lit ": \"" ++ expression ++ ['"']

/-- A number in the range of those that there are. -/
def wrapped (n : Int) : Int := n.bmod (Nat.pow 2 64)

/-- The greatest number that there is. -/
def greatest : Int := Nat.pow 2 63 - 1

/-- A number at the nearest end of the range if it is outside. -/
def clamped (n : Int) : Int := max (-Nat.pow 2 63) (min greatest n)

/-- The value of a digit to the given base. -/
def digit? (base : Nat) (c : Char) : Option Nat :=
  let value? : Option Nat :=
    if c.isDigit then some (c.toNat - '0'.toNat)
    else if c.isAlpha then some (c.toLower.toNat - 'a'.toNat + 10)
    else none
  value?.filter (· < base)

/-- The number that the digits of a base spell, and what follows them. -/
def digits (base : Nat) (t : Text) : Nat × Text :=
  let ds := t.takeWhile fun c => (digit? base c).isSome
  (ds.foldl (fun n c => base * n + (digit? base c).getD 0) 0, t.drop ds.length)

/-- The number that a text begins with, and what follows it. A zero in front makes it octal, and a
zero with an x hexadecimal. -/
def natural (t : Text) : Nat × Text :=
  match t with
  | '0' :: x :: c :: rest =>
    if (x = 'x' ∨ x = 'X') ∧ (digit? 16 c).isSome then digits 16 (c :: rest)
    else digits 8 t
  | '0' :: _ => digits 8 t
  | _ => digits 10 t

/-- A blank in front of a number. -/
def isGap (c : Char) : Bool := c = ' ' || ('\t' ≤ c && c ≤ '\r')

/-- The number that a text begins with, behind blanks and with a sign, and what follows it; the
whole text if it begins with none. -/
def integer (t : Text) : Int × Text :=
  let (negative, rest) :=
    match t.dropWhile isGap with
    | '-' :: rest => (true, rest)
    | '+' :: rest => (false, rest)
    | rest => (false, rest)
  if rest.head?.any Char.isDigit then
    let (n, after) := natural rest
    (if negative then -(n : Int) else n, after)
  else (0, t)

/-- The number that a whole text spells in decimal digits, if there is such a number. -/
def decimal? (t : Text) : Option Int := do
  let bare := t.dropWhile isGap
  let (negative, rest) :=
    match bare with
    | '-' :: rest => (true, rest)
    | '+' :: rest => (false, rest)
    | rest => (false, rest)
  let spelled := rest.takeWhile Char.isDigit
  let n ← Shell.digits? spelled
  let n : Int := if negative then -(n : Int) else n
  if n = clamped n ∧ (rest.drop spelled.length).all isGap then return n else none

/-- The number that a variable holds. Nothing counts as zero. -/
def ofText? (t : Text) : Option Int :=
  let (n, after) := integer t
  if n = clamped n ∧ (after.dropWhile isGap = []) then some n else none

/-- What an expression is made of. -/
inductive Token
  | number (n : Int)
  | name (t : Text)
  | sign (t : Text)
deriving DecidableEq

/-- The signs, longer ones before those that they begin with. -/
def signs : List Text :=
  ["<<=", ">>=", "<<", ">>", "<=", ">=", "==", "!=", "&&", "||", "+=", "-=", "*=", "/=", "%=", "&=",
    "|=", "^=", "<", ">", "=", "!", "&", "|", "+", "-", "*", "/", "%", "^", "~", "(", ")", "?",
    ":"].map lit

/-- The tokens of an expression. What is none stands as a sign that nothing expects. -/
def tokens : (steps : Text) → Text → List Token
  | [], _ => []
  | _, [] => []
  | _ :: steps, c :: rest =>
    if c = ' ' ∨ c = '\t' ∨ c = '\n' then tokens steps rest
    else if c.isDigit then
      let (n, after) := natural (c :: rest)
      .number (clamped n) :: tokens steps after
    else if beginsName c then
      let name := (c :: rest).takeWhile isInName
      .name name :: tokens steps ((c :: rest).drop name.length)
    else
      match signs.findSome? fun s => (s.isPrefixOf? (c :: rest)).map fun after => (s, after) with
      | some (s, after) => .sign s :: tokens steps after
      | none => [.sign [c]]

/-- What an evaluation works on: the tokens ahead, the variables, and what was stored, the latest
first. -/
structure Work where
  ahead : List Token
  value? : Text → Option Text
  stored : List (Text × Int) := []

/-- An evaluation. -/
abbrev Counts := StateT Work (Except Fault)

/-- The sign that comes next, if it is one of those. -/
def sign? (among : List String) : Counts (Option Text) := do
  match (← get).ahead with
  | .sign s :: rest =>
    if among.any fun a => s = lit a then
      modify fun w => { w with ahead := rest }
      return some s
    else return none
  | _ => return none

/-- The number that a variable holds. -/
def valueOf (name : Text) : Counts Int := do
  let w ← get
  match w.stored.lookup name with
  | some n => return n
  | none =>
    let t := (w.value? name).getD []
    match ofText? t with
    | some n => return n
    | none => throw (.illegalNumber t)

/-- One or zero. -/
def truth (b : Bool) : Int := if b then 1 else 0

/-- The bits of two numbers put together. -/
def bitwise (f : UInt64 → UInt64 → UInt64) (a b : Int) : Int :=
  wrapped (f (UInt64.ofInt a) (UInt64.ofInt b)).toNat

/-- What an operator makes of two numbers. -/
def operate (s : Text) (a b : Int) : Except Fault Int := do
  let shift := (b % 64).toNat
  match String.ofList s with
  | "*" => return wrapped (a * b)
  | "/" => if b = 0 then throw .divisionByZero else return wrapped (a.tdiv b)
  | "%" => if b = 0 then throw .divisionByZero else return wrapped (a.tmod b)
  | "+" => return wrapped (a + b)
  | "-" => return wrapped (a - b)
  | "<<" => return wrapped (a * Nat.pow 2 shift)
  | ">>" => return a / Nat.pow 2 shift
  | "<" => return truth (a < b)
  | "<=" => return truth (a ≤ b)
  | ">" => return truth (a > b)
  | ">=" => return truth (a ≥ b)
  | "==" => return truth (a = b)
  | "!=" => return truth (a ≠ b)
  | "&" => return bitwise (· &&& ·) a b
  | "^" => return bitwise (· ^^^ ·) a b
  | _ => return bitwise (· ||| ·) a b

/-- The operators between two numbers, those that bind closest last. -/
def ranks : List (List String) :=
  [["|"], ["^"], ["&"], ["==", "!="], ["<", "<=", ">", ">="], ["<<", ">>"], ["+", "-"],
    ["*", "/", "%"]]

/-- The signs that store a value and also compute, without their last character. -/
def computing : List String := ["*", "/", "%", "+", "-", "<<", ">>", "&", "^", "|"]

/-- What comes back to the beginning: a whole expression, or one operand. -/
structure Rules where
  whole (idle : Bool) : Counts Int
  operand (idle : Bool) : Counts Int
  choice (idle : Bool) : Counts Int

/-- A number, a variable, something in parentheses, or an operand with a sign before it. -/
def operand (self : Rules) (idle : Bool) : Counts Int := do
  match (← get).ahead with
  | .number n :: rest =>
    modify fun w => { w with ahead := rest }
    return n
  | .name t :: rest =>
    modify fun w => { w with ahead := rest }
    if idle then return 0 else valueOf t
  | _ =>
    match ← sign? ["(", "+", "-", "!", "~"] with
    | some ['('] =>
      let n ← self.whole idle
      if (← sign? [")"]).isNone then throw (.expecting "')'")
      return n
    | some ['+'] => self.operand idle
    | some ['-'] => return wrapped (-(← self.operand idle))
    | some ['!'] => return truth ((← self.operand idle) = 0)
    | some ['~'] => return wrapped (-(← self.operand idle) - 1)
    | _ => throw (.expecting "primary")

/-- Repeats a step as long as it says so, at most as often as there are tokens ahead. -/
def repeated (step : Int → Counts (Int × Bool)) : (times : List Token) → Int → Counts Int
  | [], n => return n
  | _ :: times, n => do
    let (n, more) ← step n
    if more then repeated step times n else return n

/-- Operands joined by operators, the loosest first. -/
def joined (self : Rules) (idle : Bool) : List (List String) → Counts Int
  | [] => self.operand idle
  | among :: closer => do
    let first ← joined self idle closer
    repeated (fun a => do
      match ← sign? among with
      | none => return (a, false)
      | some s =>
        let b ← joined self idle closer
        if idle then return (b, true)
        else
          match operate s a b with
          | .ok n => return (n, true)
          | .error e => throw e) (← get).ahead first

/-- What holds if all of some numbers are not zero. -/
def conjunction (self : Rules) (idle : Bool) : (steps : List Token) → Counts Int
  | [] => joined self idle ranks
  | _ :: steps => do
    let a ← joined self idle ranks
    if (← sign? ["&&"]).isNone then return a
    let b ← conjunction self (idle || a = 0) steps
    return truth (a ≠ 0 && b ≠ 0)

/-- What holds if one of some numbers is not zero. -/
def disjunction (self : Rules) (idle : Bool) : (steps : List Token) → Counts Int
  | [] => conjunction self idle []
  | _ :: steps => do
    let a ← conjunction self idle (← get).ahead
    if (← sign? ["||"]).isNone then return a
    let b ← disjunction self (idle || a ≠ 0) steps
    return truth (a ≠ 0 || b ≠ 0)

/-- A number, perhaps one of two. -/
def choice (self : Rules) (idle : Bool) : Counts Int := do
  let a ← disjunction self idle (← get).ahead
  if (← sign? ["?"]).isNone then return a
  let b ← self.whole (idle || a = 0)
  if (← sign? [":"]).isNone then throw (.expecting "':'")
  let c ← self.choice (idle || a ≠ 0)
  return if a ≠ 0 then b else c

/-- A whole expression, which may store its value. -/
def whole (self : Rules) (idle : Bool) : Counts Int := do
  match (← get).ahead with
  | .name t :: .sign s :: rest =>
    if s = ['='] ∨ (computing.any fun c => s = lit c ++ ['=']) then
      modify fun w => { w with ahead := rest }
      let n ← self.whole idle
      if idle then return n
      let value ←
        if s = ['='] then pure n
        else
          match operate s.dropLast (← valueOf t) n with
          | .ok n => pure n
          | .error e => throw e
      modify fun w => { w with stored := (t, value) :: w.stored }
      return value
    else choice self idle
  | _ => choice self idle

/-- The rules, nested at most so deep. -/
def rules : (depth : Nat) → Rules
  | 0 =>
    let stop (_ : Bool) : Counts Int := throw (.expecting "primary")
    ⟨stop, stop, stop⟩
  | n + 1 =>
    ⟨fun idle => whole (rules n) idle, fun idle => operand (rules n) idle,
      fun idle => choice (rules n) idle⟩

/-- The value of an expression, and what is stored on the way, the first first. -/
def evaluate (value? : Text → Option Text) (t : Text) :
    Except Fault (Int × List (Text × Int)) := do
  let ts := tokens t t
  let (n, w) ← ((rules (2 * ts.length + 2)).whole false).run ⟨ts, value?, []⟩
  match w.ahead with
  | [] => return (n, w.stored.reverse)
  | _ => throw (.expecting "EOF")

end Sum

/-- The decimal digits of a number with its sign. -/
def ofInt (n : Int) : Text := (if n < 0 then ['-'] else []) ++ Text.ofNat n.natAbs

end Quire.Shell
