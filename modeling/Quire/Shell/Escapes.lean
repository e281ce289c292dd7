import Quire.Shell.Bytes

/-!
Escapes behind backslashes in the texts that a shell writes out.
-/

namespace Quire.Shell.Escapes

/-- The character that a letter behind a backslash stands for. -/
def letter? (c : Char) : Option Char :=
  match c with
  | 'a' => some '\x07'
  | 'b' => some '\x08'
  | 'e' => some '\x1b'
  | 'f' => some '\x0c'
  | 'n' => some '\n'
  | 'r' => some '\r'
  | 't' => some '\t'
  | 'v' => some '\x0b'
  | '\\' => some '\\'
  | _ => none

/-- A digit to the base eight. -/
def isOctal (c : Char) : Bool := '0' ≤ c && c ≤ '7'

/-- The character that at most so many octal digits spell, and what follows them. -/
def octal : (count value : Nat) → Text → Char × Text
  | n + 1, value, c :: rest =>
    if isOctal c then octal n (8 * value + (c.toNat - '0'.toNat)) rest
    else (Char.ofNat (value % 256), c :: rest)
  | _, value, t => (Char.ofNat (value % 256), t)

/-- The character that stands behind a backslash, and what follows it. A backslash before anything
else stands for itself. -/
def one (t : Text) : Char × Text :=
  match t with
  | c :: rest =>
    match letter? c with
    | some d => (d, rest)
    | none => if isOctal c then octal 3 0 t else ('\\', t)
  | [] => ('\\', [])

/-- The text with its escapes carried out, and whether one of them was met that ends all writing. A
zero may stand before the digits of an octal number. -/
def all : (steps : Text) → Text → Text × Bool
  | [], _ => ([], false)
  | _, [] => ([], false)
  | _, '\\' :: 'c' :: _ => ([], true)
  | _ :: steps, '\\' :: '0' :: rest => behind (octal 3 0 rest).1 (all steps (octal 3 0 rest).2)
  | _ :: steps, '\\' :: rest => behind (one rest).1 (all steps (one rest).2)
  | _ :: steps, c :: rest => behind c (all steps rest)
where
  /-- One character and what is behind it. -/
  behind (c : Char) (later : Text × Bool) : Text × Bool := (c :: later.1, later.2)

/-- What an echo of words writes. -/
def echo (words : List Text) : Text :=
  match words with
  | ['-', 'n'] :: rest => spoken false rest
  | _ => spoken true words
where
  /-- The words with blanks between them, up to an escape that ends all writing. -/
  spoken (lineEnd : Bool) : List Text → Text
    | [] => if lineEnd then ['\n'] else []
    | [w] =>
      match all w w with
      | (t, true) => t
      | (t, false) => if lineEnd then t ++ ['\n'] else t
    | w :: rest =>
      match all w w with
      | (t, true) => t
      | (t, false) => t ++ ' ' :: spoken lineEnd rest

end Quire.Shell.Escapes
