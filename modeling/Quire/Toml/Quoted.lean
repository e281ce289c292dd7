import Quire.Digest.Hex
import Quire.Toml.Cursor

/-!
The four notations of strings: with and without escapes, on one line and on several. Every newline
inside a string counts as a line feed.
-/

namespace Quire.Toml

/-- The number that hexadecimal digits spell. -/
def hexNumber? (digits : Text) : Option Nat :=
  digits.foldlM (fun n c => (Digest.hexValue? c).map (16 * n + ·)) 0

/-- The character whose number the given count of hexadecimal digits spell. -/
def codedChar? (count : Nat) (t : Text) : Option (Char × Text) := do
  let digits := t.take count
  guard (digits.length = count)
  let n ← hexNumber? digits
  guard (n.isValidChar)
  return (Char.ofNat n, t.drop count)

/-- The character that an escape stands for, read behind its backslash. -/
def escaped? : Text → Option (Char × Text)
  | 'b' :: rest => some ('\x08', rest)
  | 't' :: rest => some ('\t', rest)
  | 'n' :: rest => some ('\n', rest)
  | 'f' :: rest => some ('\x0c', rest)
  | 'r' :: rest => some ('\r', rest)
  | '"' :: rest => some ('"', rest)
  | '\\' :: rest => some ('\\', rest)
  | 'u' :: rest => codedChar? 4 rest
  | 'U' :: rest => codedChar? 8 rest
  | _ => none

/-- The string up to the quote that closes it, read in at most so many steps. -/
def basicBody : (steps : Nat) → Text → Option (Text × Text)
  | 0, _ => none
  | _, [] => none
  | n + 1, c :: rest =>
    if c = '"' then some ([], rest)
    else if c = '\\' then do
      let (escaped, after) ← escaped? rest
      let (body, after) ← basicBody n after
      return (escaped :: body, after)
    else if isPlain c then (basicBody n rest).map fun (body, after) => (c :: body, after)
    else none

/-- What follows an escaped newline with all blanks and newlines behind it, read behind its
backslash. -/
def afterFold? (t : Text) : Option Text :=
  let blank (c : Char) : Bool := isGap c || c = '\n' || c = '\r'
  (afterNewline? (t.dropWhile isGap)).bind fun after =>
    let rest := after.dropWhile blank
    -- A carriage return is blank only before a line feed.
    if hasLoneReturn (after.take (after.length - rest.length)) then none else some rest
where
  /-- Whether a carriage return stands before something else than a line feed. -/
  hasLoneReturn : Text → Bool
    | [] => false
    | '\r' :: '\n' :: rest => hasLoneReturn rest
    | '\r' :: _ => true
    | _ :: rest => hasLoneReturn rest

/-- The body of a string of several lines up to its three closing quotes, before which one or two
more may stand. `escapes` says whether backslashes escape. -/
def longBody (quote : Char) (escapes : Bool) : (steps : Nat) → Text → Option (Text × Text)
  | 0, _ => none
  | _, [] => none
  | n + 1, c :: rest =>
    if c = quote then
      let count := (rest.takeWhile (· = quote)).length + 1
      let after := rest.dropWhile (· = quote)
      if 5 < count then none
      else if 3 ≤ count then some (List.replicate (count - 3) quote, after)
      else (longBody quote escapes n after).map fun (body, after) =>
        (List.replicate count quote ++ body, after)
    else if escapes ∧ c = '\\' then
      match afterFold? rest with
      | some after => longBody quote escapes n after
      | none => do
        let (escaped, after) ← escaped? rest
        let (body, after) ← longBody quote escapes n after
        return (escaped :: body, after)
    else
      match afterNewline? (c :: rest) with
      | some after =>
        (longBody quote escapes n after).map fun (body, after) => ('\n' :: body, after)
      | none =>
        if isPlain c then
          (longBody quote escapes n rest).map fun (body, after) => (c :: body, after)
        else none

/-- A string on one line without escapes, read behind its opening quote. -/
def literalBody (t : Text) : Option (Text × Text) :=
  let inside (c : Char) : Bool := isPlain c && c ≠ '\''
  match t.dropWhile inside with
  | '\'' :: after => some (t.takeWhile inside, after)
  | _ => none

/-- A string on one line. -/
def shortString? : Text → Option (Text × Text)
  | '"' :: rest => basicBody (rest.length + 1) rest
  | '\'' :: rest => literalBody rest
  | _ => none

/-- A string of several lines, the newline behind its opening quotes left out. -/
def longString? (t : Text) : Option (Text × Text) :=
  let body (quote : Char) (escapes : Bool) (rest : Text) :=
    longBody quote escapes (rest.length + 1) ((afterNewline? rest).getD rest)
  match t with
  | '"' :: '"' :: '"' :: rest => body '"' true rest
  | '\'' :: '\'' :: '\'' :: rest => body '\'' false rest
  | _ => none

/-- Whether three quotes open a string of several lines. -/
def opensLong : Text → Bool
  | '"' :: '"' :: '"' :: _ => true
  | '\'' :: '\'' :: '\'' :: _ => true
  | _ => false

/-- A string in any notation. -/
def string? (t : Text) : Option (Text × Text) :=
  if opensLong t then longString? t else shortString? t

end Quire.Toml
