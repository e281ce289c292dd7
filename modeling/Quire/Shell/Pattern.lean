import Quire.Shell.Bytes

/-!
Patterns: texts with wildcards, as they stand for names of files, for choices among words and for
what is cut off a value. Main statements: `Pattern.fits`, and what a value is without a beginning or
an end that fits.
-/

namespace Quire.Shell

/-- A text of which every character is quoted or not. A quoted one stands for itself. -/
abbrev Pattern := List (Char × Bool)

/-- A piece of a pattern: one character, any character, any text, or one character of some stretches
of characters, or outside of them. -/
inductive Piece
  | char (c : Char)
  | any
  | many
  | oneOf (inside : Bool) (stretches : List (Char × Char))
deriving DecidableEq

/-- The pieces of a pattern. -/
abbrev Pieces := List Piece

namespace Pattern

/-- The stretches of characters that a class consists of. -/
def classStretches (name : Text) : List (Char × Char) :=
  match String.ofList name with
  | "alpha" => [('A', 'Z'), ('a', 'z')]
  | "digit" => [('0', '9')]
  | "alnum" => [('0', '9'), ('A', 'Z'), ('a', 'z')]
  | "upper" => [('A', 'Z')]
  | "lower" => [('a', 'z')]
  | "space" => [('\t', '\r'), (' ', ' ')]
  | "blank" => [('\t', '\t'), (' ', ' ')]
  | "punct" => [('!', '/'), (':', '@'), ('[', '\x60'), ('\x7b', '~')]
  | "print" => [(' ', '~')]
  | "graph" => [('!', '~')]
  | "cntrl" => [('\x00', '\x1f'), ('\x7f', '\x7f')]
  | "xdigit" => [('0', '9'), ('A', 'F'), ('a', 'f')]
  | _ => []

/-- The name of a class behind its bracket and colon, and what follows it. -/
def class? (p : Pattern) : Option (Text × Pattern) :=
  let name := (p.takeWhile fun (c, _) => c.isAlpha).map (·.1)
  match p.drop name.length with
  | (':', _) :: (']', _) :: rest => some (name, rest)
  | _ => none

/-- A character in brackets, whatever is before it, and what follows it. -/
def member? : Pattern → Option (Char × Pattern)
  | ('\\', false) :: (c, _) :: rest => some (c, rest)
  | (c, _) :: rest => some (c, rest)
  | [] => none

/-- The stretches in brackets up to the closing one, and what follows it. A closing bracket that
comes first is a member. -/
def stretches (isFirst : Bool) : (steps : Pattern) → Pattern → Option (List (Char × Char) × Pattern)
  | [], _ => none
  | _ :: steps, p => do
    match isFirst, p with
    | _, [] => none
    | false, (']', false) :: rest => return ([], rest)
    | _, _ =>
      let named? : Option (Text × Pattern) :=
        match p with
        | ('[', false) :: (':', _) :: rest => class? rest
        | _ => none
      match named? with
      | some (name, rest) =>
        let (more, after) ← stretches false steps rest
        return (classStretches name ++ more, after)
      | none =>
        let (low, rest) ← member? p
        let (high, rest) ←
          match rest with
          | ('-', false) :: (']', false) :: _ => pure (low, rest)
          | ('-', false) :: rest => member? rest
          | _ => pure (low, rest)
        let (more, after) ← stretches false steps rest
        return ((low, high) :: more, after)

/-- The brackets whose opening one was read, and what follows them. -/
def brackets? (p : Pattern) : Option (Piece × Pattern) :=
  let (among, inside) := match p with
    | ('!', false) :: rest => (false, rest)
    | _ => (true, p)
  (stretches true (p ++ p) inside).map fun (s, after) => (.oneOf among s, after)

/-- The pieces of a pattern. A bracket that is not closed stands for itself. -/
def piecesOf : (steps : Pattern) → Pattern → Pieces
  | [], _ => []
  | _, [] => []
  | _ :: steps, (c, quoted) :: rest =>
    if quoted then .char c :: piecesOf steps rest
    else if c = '*' then .many :: piecesOf steps rest
    else if c = '?' then .any :: piecesOf steps rest
    else if c = '\\' then
      match rest with
      | (d, _) :: more => .char d :: piecesOf steps more
      | [] => [.char c]
    else if c = '[' then
      match brackets? rest with
      | some (piece, after) => piece :: piecesOf steps after
      | none => .char c :: piecesOf steps rest
    else .char c :: piecesOf steps rest

/-- The pieces of a pattern. -/
def pieces (p : Pattern) : Pieces := piecesOf p p

/-- A text and all its ends. -/
def ends : Text → List Text
  | [] => [[]]
  | c :: rest => (c :: rest) :: ends rest

/-- Whether a text is what pieces stand for. -/
def arePieces : Pieces → Text → Bool
  | [], t => t.isEmpty
  | .many :: rest, t => (ends t).any (arePieces rest)
  | .char d :: rest, c :: t => c = d && arePieces rest t
  | .any :: rest, _ :: t => arePieces rest t
  | .oneOf inside s :: rest, c :: t =>
    (s.any fun (low, high) => low ≤ c && c ≤ high) = inside && arePieces rest t
  | _, [] => false

/-- Whether a text is what a pattern stands for. -/
def fits (p : Pattern) (t : Text) : Bool := arePieces p.pieces t

/-- Whether a pattern has something that can stand for more than one text. -/
def isOpen (p : Pattern) : Bool :=
  p.any fun (c, quoted) => !quoted && (c = '*' || c = '?' || c = '[')

/-- The characters of a pattern. -/
def text (p : Pattern) : Text := p.map (·.1)

/-- A text up to what divides it from another one. -/
def undivided (t : Text) : Text := t.takeWhile (· ≠ '\x00')

/-- A value without the part at its end or beginning that fits, as much or as little as possible. A
value may be several texts with a NUL between each two; of a part with a NUL in it only what is
before that has to fit, and a part is looked for from the front in the first text alone. -/
def cut (p : Pattern) (atEnd longest : Bool) (t : Text) : Text :=
  let fromEnd := (List.range (t.length + 1)).reverse
  let fromFront := List.range ((undivided t).length + 1)
  let kept (n : Nat) : Option Text :=
    if p.fits (undivided (if atEnd then t.drop n else t.take n)) then
      some (if atEnd then t.take n else t.drop n)
    else none
  ((if atEnd = longest then fromFront else fromEnd).findSome? kept).getD t

/-- The stretches of a pattern between slashes. -/
def fields : Pattern → List Pattern
  | [] => [[]]
  | (c, quoted) :: rest =>
    match fields rest with
    | [] => [[(c, quoted)]]
    | f :: fs => if c = '/' then [] :: f :: fs else ((c, quoted) :: f) :: fs

/-- A pattern without the backslashes that protect its characters. -/
def unprotected : Pattern → Text
  | ('\\', false) :: (c, _) :: rest => c :: unprotected rest
  | (c, _) :: rest => c :: unprotected rest
  | [] => []

/-- The paths that fit a pattern, field by field. What is before the field is given, and whether one
of the fields was open. Names that begin with a dot have to be asked for. -/
def pathsFrom (listing : Text → List Text) (isThere : Text → Bool) (before : Text) (opened : Bool) :
    List Pattern → List Text
  | [] => []
  | [last] =>
    if last.isOpen then (found last).map (before ++ ·)
    else
      let t := before ++ unprotected last
      if !opened || isThere t then [t] else []
  | field :: rest =>
    if field.isOpen then
      (found field).flatMap fun name =>
        pathsFrom listing isThere (before ++ name ++ ['/']) true rest
    else pathsFrom listing isThere (before ++ unprotected field ++ ['/']) opened rest
where
  /-- The names that fit a field. -/
  found (field : Pattern) : List Text :=
    (listing before).filter fun name =>
      (name.head? ≠ some '.' || field.head?.any (·.1 = '.')) && field.fits name

/-- The paths that fit a pattern, in their order. -/
def paths (listing : Text → List Text) (isThere : Text → Bool) (p : Pattern) : List Text :=
  (pathsFrom listing isThere [] false p.fields).mergeSort fun a b => !b.before a

example : fits [('a', false), ('*', false), ('c', true)] "abc".toList := by decide
example : fits [('[', false), ('!', false), ('a', false), (']', false)] ['b'] := by decide
example : cut [('*', false), ('.', false)] false true "a.b.c".toList = ['c'] := by decide

end Pattern

end Quire.Shell
