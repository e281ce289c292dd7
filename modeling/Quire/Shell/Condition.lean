import Quire.Disk.Lookup
import Quire.Shell.Sum

/-!
Conditions: questions about texts, numbers and files, put as a list of words. Main statement:
`Condition.holds`.
-/

namespace Quire.Shell

/-- What a condition is asked of: the files, and which of them can be run. -/
structure Surroundings where
  disk : Disk
  isProgram : Path → Bool

namespace Condition

/-- What kind of sign a word is. -/
inductive Sign
  | unary
  | binary
  | negation
  | conjunction
  | disjunction
  | opening
  | closing
deriving DecidableEq

/-- The sign that a word is, if it is one. -/
def sign? (t : Text) : Option Sign :=
  let isOne (among : List String) : Bool := among.any fun s => t = lit s
  if isOne ["-r", "-w", "-x", "-e", "-f", "-d", "-c", "-b", "-p", "-u", "-g", "-k", "-s", "-t",
      "-z", "-n", "-h", "-O", "-G", "-L", "-S"] then some .unary
  else if isOne ["=", "!=", "<", ">", "-eq", "-ne", "-ge", "-gt", "-le", "-lt", "-nt", "-ot",
      "-ef"] then some .binary
  else if t = ['!'] then some .negation
  else if t = ['-', 'a'] then some .conjunction
  else if t = ['-', 'o'] then some .disjunction
  else if t = ['('] then some .opening
  else if t = [')'] then some .closing
  else none

/-- What comes next in a condition. -/
inductive Next
  | nothing
  | operand
  | sign (s : Sign)
deriving DecidableEq

/-- What words begin with. A sign may be meant as an operand. -/
def next : List Text → Next
  | [] => .nothing
  | w :: rest =>
    match sign? w with
    | none => .operand
    | some .unary => if isOperand rest then .operand else .sign .unary
    | some .opening => if rest.isEmpty then .operand else .sign .opening
    | some s => .sign s
where
  /-- Whether what follows makes an operand of a sign before it. -/
  isOperand : List Text → Bool
    | [] => true
    | [_] => false
    | w :: _ => sign? w = some .binary

/-- Asking a condition, of which these words are left. It fails with a complaint. -/
abbrev Asks := StateT (List Text) (Except Text)

/-- The number that a word spells. -/
def number (t : Text) : Asks Int :=
  match Sum.decimal? t with
  | some n => return n
  | none => throw (lit "Illegal number: " ++ t)

/-- A question about one operand. -/
def unary (s : Surroundings) (sign operand : Text) : Bool :=
  let path := pathOf operand
  let kind? := (s.disk.node? path).toOption
  match String.ofList sign with
  | "-z" => operand.isEmpty
  | "-n" => !operand.isEmpty
  | "-e" => kind?.isSome
  | "-r" => kind?.isSome
  | "-w" => kind?.isSome
  | "-O" => kind?.isSome
  | "-G" => kind?.isSome
  | "-f" => kind?.any (·.kind = .file)
  | "-d" => kind?.any (·.kind = .dir)
  | "-c" => kind?.any (·.kind = .device)
  | "-x" => kind?.any fun n => n.kind = .dir || (n.kind = .file && s.isProgram path)
  | "-s" =>
    kind?.any fun
      | .file bytes => 0 < bytes.size
      | .dir _ => true
      | _ => false
  | "-h" => isLink path
  | "-L" => isLink path
  | _ => false
where
  /-- Whether a path is a link. -/
  isLink (p : Path) : Bool := (s.disk.nodeItself? p).toOption.any (·.kind = .link)

/-- A question about two operands. -/
def binary (s : Surroundings) (a sign b : Text) : Asks Bool := do
  let compare (holds : Int → Int → Bool) : Asks Bool := return holds (← number a) (← number b)
  match String.ofList sign with
  | "=" => return a = b
  | "!=" => return a ≠ b
  | "<" => return a.before b
  | ">" => return b.before a
  | "-eq" => compare (· == ·)
  | "-ne" => compare (· != ·)
  | "-ge" => compare (fun x y => x ≥ y)
  | "-gt" => compare (fun x y => x > y)
  | "-le" => compare (fun x y => x ≤ y)
  | "-lt" => compare (fun x y => x < y)
  | "-ef" =>
    match s.disk.place? (pathOf a), s.disk.place? (pathOf b) with
    | .ok p, .ok q => return p = q && s.disk.has (pathOf a)
    | _, _ => return false
  | _ => return false

/-- Passes by a word. -/
def skip : Asks Unit := modify List.tail

/-- A question, or a whole condition in parentheses. -/
def primary (s : Surroundings) (whole : Next → Asks Bool) (n : Next) : Asks Bool := do
  match n with
  | .nothing => return false
  | .sign .opening =>
    skip
    let inner := next (← get)
    if inner = .sign .closing then return false
    let b ← whole inner
    skip
    if next (← get) ≠ .sign .closing then throw (lit "closing paren expected")
    return b
  | .sign .unary =>
    let sign := (← get).headD []
    skip
    match ← get with
    | [] => throw (sign ++ lit ": argument expected")
    | operand :: _ => return unary s sign operand
  | _ =>
    let words ← get
    if next words.tail = .sign .binary then
      skip
      skip
      let sign := words.tail.headD []
      match ← get with
      | [] => throw (sign ++ lit ": argument expected")
      | b :: _ => binary s (words.headD []) sign b
    else return words.headD [] ≠ []

/-- A question, perhaps turned into its opposite. -/
def negation (s : Surroundings) (whole : Next → Asks Bool) : (steps : List Text) → Next → Asks Bool
  | [], n => primary s whole n
  | _ :: steps, n => do
    if n ≠ .sign .negation then return ← primary s whole n
    let inner := next (← get).tail
    if inner ≠ .nothing then skip
    return !(← negation s whole steps inner)

/-- Questions that all have to be answered with yes. -/
def conjunction (s : Surroundings) (whole : Next → Asks Bool) :
    (steps : List Text) → Next → Asks Bool
  | [], n => negation s whole [] n
  | _ :: steps, n => do
    let a ← negation s whole (← get) n
    if next (← get).tail ≠ .sign .conjunction then return a
    skip
    skip
    let b ← conjunction s whole steps (next (← get))
    return a && b

/-- Questions of which one has to be answered with yes. -/
def disjunction (s : Surroundings) (whole : Next → Asks Bool) :
    (steps : List Text) → Next → Asks Bool
  | [], n => conjunction s whole [] n
  | _ :: steps, n => do
    let a ← conjunction s whole (← get) n
    if next (← get).tail ≠ .sign .disjunction then return a
    skip
    skip
    let b ← disjunction s whole steps (next (← get))
    return a || b

/-- A whole condition, nested at most so deep. -/
def whole (s : Surroundings) : (depth : Nat) → Next → Asks Bool
  | 0, _ => return false
  | d + 1, n => do disjunction s (whole s d) ([] :: (← get)) n

/-- Asks a whole condition of which the beginning is known. No word may be left behind it. -/
def ask (s : Surroundings) (words : List Text) (n : Next) : Except Text Bool := do
  let (b, left) ← (whole s (words.length + 1) n).run words
  match left with
  | w :: _ :: _ =>
    if w = [] then throw (lit "unexpected operator")
    else throw (w ++ lit ": unexpected operator")
  | _ => return b

/-- Words without the negations that few words are first taken to begin with. -/
def bare : (steps : List Text) → List Text → List Text
  | _ :: steps, words@(['!'] :: rest) =>
    if isNegated words then bare steps rest else words
  | _, words => words
where
  /-- Whether words are taken to begin with a negation. -/
  isNegated (words : List Text) : Bool :=
    (words.length = 3 || words.length = 4) && !(words.length = 3 && isBinary words)
  /-- Whether the second of some words is a sign between two operands. -/
  isBinary (words : List Text) : Bool := (words[1]?.bind sign?) = some .binary

/-- Whether a condition holds, or what is wrong with it. What a few words begin with is taken for
negations before anything else, and several of them count as one. -/
def holds (s : Surroundings) (words : List Text) : Except Text Bool := do
  let inner := bare words words
  let b ←
    if inner = [] then .ok false
    else if inner.length = 3 ∧ bare.isBinary inner then ask s inner .operand
    else if (inner.length = 3 ∨ inner.length = 4) ∧ inner.head? = some ['('] ∧
        inner.getLast? = some [')'] then
      ask s inner.dropLast.tail (next inner.dropLast.tail)
    else ask s inner (next inner)
  return b != (inner.length ≠ words.length)

end Condition

end Quire.Shell
