import Quire.Digest.Hex
import Quire.Script.Letter

/-!
What the text of a script is made of: words, literals and marks, and the gaps between them. How a
slash is read depends on what is around it, so the reader of a lexeme is told where it stands by
whoever calls it; here a slash divides.
-/

namespace Quire.Script

/-- The pieces that the grammar of scripts speaks of. Of most literals only their kind matters. -/
inductive Lexeme
  /-- A word, and whether a part of it was written by its number. -/
  | word (t : Text) (escaped : Bool)
  /-- A name behind a number sign. -/
  | hidden (t : Text)
  /-- A string, and whether half a character is left over in it. -/
  | text (value : Text) (broken : Bool)
  | number
  /-- A stretch of a template up to its end or to a substitution, and whether its escapes can be
  read. -/
  | template (last readable : Bool)
  | mark (t : Text)
  /-- Something that cannot be read. -/
  | unknown
  | finish
deriving DecidableEq

/-- A piece, and whether the end of a line stands between it and the piece before. -/
structure Token where
  lexeme : Lexeme
  onNewLine : Bool
deriving DecidableEq

/-! Gaps. -/

/-- Where in a gap a reader is: between comments, in one that ends with its line, or in one between
stars, perhaps behind a star. -/
inductive Gap
  | between
  | line
  | block (star : Bool)
deriving DecidableEq

/-- Passes by the gap that a text starts with. Tells where in the gap the text ended, whether the
end of a line was passed, and what follows. -/
def skipGap : Gap → (lineEnded : Bool) → Text → Gap × Bool × Text
  | gap, lineEnded, [] => (gap, lineEnded, [])
  | .line, lineEnded, c :: rest =>
    if isLineEnd c then skipGap .between true rest else skipGap .line lineEnded rest
  | .block star, lineEnded, c :: rest =>
    if star ∧ c = '/' then skipGap .between lineEnded rest
    else skipGap (.block (c = '*')) (lineEnded || isLineEnd c) rest
  | .between, lineEnded, '/' :: '/' :: rest => skipGap .line lineEnded rest
  | .between, lineEnded, '/' :: '*' :: rest => skipGap (.block false) lineEnded rest
  | .between, lineEnded, c :: rest =>
    if isLineEnd c then skipGap .between true rest
    else if isBlank c then skipGap .between lineEnded rest
    else (.between, lineEnded, c :: rest)

/-! Escapes. -/

/-- The number that hexadecimal digits spell, and what follows them. -/
def hexDigits : Text → List Nat × Text
  | [] => ([], [])
  | c :: rest =>
    match Digest.hexValue? c with
    | some d => ((d :: (hexDigits rest).1), (hexDigits rest).2)
    | none => ([], c :: rest)

/-- The value of digits to the base sixteen. -/
def hexNumber (digits : List Nat) : Nat := digits.foldl (fun n d => 16 * n + d) 0

/-- The number that so many hexadecimal digits spell, and what follows them. -/
def hexPair? (count : Nat) (t : Text) : Option (Nat × Text) :=
  let digits := (hexDigits (t.take count)).1
  if digits.length = count then some (hexNumber digits, t.drop count) else none

/-- The number that a Unicode escape gives behind its letter: four digits, or any count of them
between braces. -/
def codePoint? (t : Text) : Option (Nat × Text) :=
  match t with
  | '{' :: rest =>
    match hexDigits rest with
    | ([], _) => none
    | (digits, '}' :: after) =>
      if hexNumber digits ≤ 0x10ffff then some (hexNumber digits, after) else none
    | _ => none
  | _ => hexPair? 4 t

/-- The first half of a character that is written in two halves. -/
def isFirstHalf (n : Nat) : Bool := 0xd800 ≤ n && n < 0xdc00

/-- The second half of a character that is written in two halves. -/
def isSecondHalf (n : Nat) : Bool := 0xdc00 ≤ n && n < 0xe000

/-- The number of a Unicode escape in a string, two halves that follow each other put together. -/
def joinedPoint? (t : Text) : Option (Nat × Text) := do
  let (n, after) ← codePoint? t
  if isFirstHalf n ∧ t.head? ≠ some '{' then
    match after with
    | '\\' :: 'u' :: more =>
      match hexPair? 4 more with
      | some (m, rest) =>
        if isSecondHalf m then return (0x10000 + (n - 0xd800) * 0x400 + (m - 0xdc00), rest)
        else return (n, after)
      | none => return (n, after)
    | _ => return (n, after)
  else return (n, after)

/-- The value of at most so many octal digits, and what follows them. -/
def octalDigits : (count value : Nat) → Text → Nat × Text
  | 0, value, t => (value, t)
  | _, value, [] => (value, [])
  | n + 1, value, c :: rest =>
    if '0' ≤ c ∧ c ≤ '7' then octalDigits n (8 * value + (c.toNat - '0'.toNat)) rest
    else (value, c :: rest)

/-- The numbers that the escape behind a backslash in a string stands for, none or one, and what
follows it. -/
def escape? : Text → Option (List Nat × Text)
  | [] => none
  | c :: rest =>
    if c = '\r' then
      match rest with
      | '\n' :: more => some ([], more)
      | _ => some ([], rest)
    else if isLineEnd c then some ([], rest)
    else if c = 'x' then (hexPair? 2 rest).map fun (n, after) => ([n], after)
    else if c = 'u' then (joinedPoint? rest).map fun (n, after) => ([n], after)
    else if c = 'b' then some ([8], rest)
    else if c = 'f' then some ([12], rest)
    else if c = 'n' then some ([10], rest)
    else if c = 'r' then some ([13], rest)
    else if c = 't' then some ([9], rest)
    else if c = 'v' then some ([11], rest)
    else if '0' ≤ c ∧ c ≤ '7' then
      let (n, after) := octalDigits (if c ≤ '3' then 3 else 2) 0 (c :: rest)
      some ([n], after)
    else some ([c.toNat], rest)

/-- Whether the escape behind a backslash in a template can be read. -/
def isReadableEscape (t : Text) : Bool :=
  match t with
  | 'x' :: rest => (hexPair? 2 rest).isSome
  | 'u' :: rest => (codePoint? rest).isSome
  | '0' :: rest => !rest.head?.any Char.isDigit
  | c :: _ => !c.isDigit
  | [] => false

/-! Literals. -/

/-- The numbers of the characters of a string up to its closing quote, and what follows. A string
does not go beyond its line. There are at most as many steps as the first text is long. -/
def textTail (q : Char) : (steps : Text) → Text → Option (List Nat × Text)
  | [], _ => none
  | _, [] => none
  | _ :: n, c :: rest =>
    if c = q then some ([], rest)
    else if c = '\n' ∨ c = '\r' then none
    else if c = '\\' then do
      let (here, after) ← escape? rest
      let (later, after) ← textTail q n after
      return (here ++ later, after)
    else do
      let (later, after) ← textTail q n rest
      return (c.toNat :: later, after)

/-- The text of a string whose characters have the given numbers. -/
def textOf (numbers : List Nat) : Lexeme :=
  .text (numbers.map Char.ofNat) (numbers.any fun n => isFirstHalf n || isSecondHalf n)

/-- The stretch of a template up to its end or to a substitution, and what follows. There are at
most as many steps as the first text is long. -/
def templateTail (readable : Bool) : (steps : Text) → Text → Option (Lexeme × Text)
  | [], _ => none
  | _, [] => none
  | _, '\x60' :: rest => some (.template true readable, rest)
  | _, '$' :: '{' :: rest => some (.template false readable, rest)
  | _ :: n, '\\' :: rest => templateTail (readable && isReadableEscape rest) n (rest.drop 1)
  | _ :: n, _ :: rest => templateTail readable n rest

/-- What follows digits that a predicate knows, between which single underscores may stand. An
underscore needs a digit on both sides. -/
def afterDigits? (isDigit : Char → Bool) : Text → Option Text
  | c :: '_' :: rest =>
    if isDigit c then afterDigits? isDigit rest else none
  | c :: rest =>
    if isDigit c then
      match rest with
      | d :: _ => if isDigit d then afterDigits? isDigit rest else some rest
      | [] => some rest
    else none
  | [] => none

/-- What follows an exponent, if one is there. -/
def afterExponent? (t : Text) : Option Text :=
  match t with
  | c :: rest =>
    if c = 'e' ∨ c = 'E' then
      match rest with
      | '+' :: digits => afterDigits? Char.isDigit digits
      | '-' :: digits => afterDigits? Char.isDigit digits
      | digits => afterDigits? Char.isDigit digits
    else some t
  | [] => some t

/-- What follows the digits behind a decimal point, and an exponent. -/
def afterFraction? (t : Text) : Option Text :=
  if t.head?.any Char.isDigit then (afterDigits? Char.isDigit t).bind afterExponent?
  else afterExponent? t

/-- What follows a number to another base behind the letter of the base. -/
def afterBase? (isDigit : Char → Bool) (t : Text) : Option Text := do
  match ← afterDigits? isDigit t with
  | 'n' :: rest => return rest
  | rest => return rest

/-- A digit to the base sixteen. -/
def isHexDigit (c : Char) : Bool := (Digest.hexValue? c).isSome

/-- What follows a number that begins with a zero and another digit. Eights and nines make it a
decimal one. -/
def afterOldNumber? (t : Text) : Option Text :=
  let rest := t.dropWhile Char.isDigit
  if (t.takeWhile Char.isDigit).any (fun c => c = '8' || c = '9') then
    match rest with
    | '.' :: more => afterFraction? more
    | 'e' :: _ => afterExponent? rest
    | _ => some rest
  else some rest

/-- What follows a number. -/
def afterNumber? (t : Text) : Option Text :=
  match t with
  | '.' :: rest => afterFraction? rest
  | '0' :: c :: rest =>
    if c = 'x' ∨ c = 'X' then afterBase? isHexDigit rest
    else if c = 'o' ∨ c = 'O' then afterBase? (fun c => '0' ≤ c && c ≤ '7') rest
    else if c = 'b' ∨ c = 'B' then afterBase? (fun c => c = '0' || c = '1') rest
    else if c = '.' then afterFraction? rest
    else if c = 'n' then some rest
    else if c.isDigit then afterOldNumber? (c :: rest)
    else afterExponent? (c :: rest)
  | _ => do
    match ← afterDigits? Char.isDigit t with
    | '.' :: rest => afterFraction? rest
    | 'n' :: rest => return rest
    | rest => afterExponent? rest

/-- A number, after which no word may begin at once. -/
def number (t : Text) : Lexeme × Text :=
  match afterNumber? t with
  | some rest =>
    if rest.head?.any fun c => isWordStart c || c.isDigit then (.unknown, rest)
    else (.number, rest)
  | none => (.unknown, [])

/-! Words and marks. -/

/-- The rest of a word, whether a part of it was written by its number, and what follows. There are
at most as many steps as the first text is long. -/
def wordTail (isFirst : Bool) : (steps : Text) → Text → Option (Text × Bool × Text)
  | [], _ => none
  | _, [] => some ([], false, [])
  | _ :: n, '\\' :: rest => do
    let 'u' :: more := rest | none
    let (k, after) ← codePoint? more
    let c := Char.ofNat k
    guard (c.toNat = k ∧ if isFirst then isWordStart c else isWordPart c)
    let (later, _, after) ← wordTail false n after
    return (c :: later, true, after)
  | _ :: n, c :: rest =>
    if if isFirst then isWordStart c else isWordPart c then do
      let (later, escaped, after) ← wordTail false n rest
      return (c :: later, escaped, after)
    else if isFirst then none
    else some ([], false, c :: rest)

/-- The marks, longer ones before those that they begin with. -/
def marks : List Text :=
  [">>>=", "...", "===", "!==", "**=", "<<=", ">>=", ">>>", "&&=", "||=", "??=", "=>", "==", "!=",
    "<=", ">=", "&&", "||", "??", "?.", "++", "--", "+=", "-=", "*=", "/=", "%=", "&=", "|=", "^=",
    "<<", ">>", "**", "\x7b", "\x7d", "(", ")", "[", "]", ";", ",", "<", ">", "+", "-", "*", "/",
    "%", "&", "|", "^", "!", "~", "?", ":", "=", ".", "@"].map String.toList

/-- The mark that a text starts with. A question mark and a decimal point are two. -/
def mark (t : Text) : Lexeme × Text :=
  let found := marks.findSome? fun m => (m.isPrefixOf? t).map fun rest => (m, rest)
  match found with
  | none => (.unknown, [])
  | some (m, rest) =>
    if m = ['?', '.'] ∧ rest.head?.any Char.isDigit then (.mark ['?'], '.' :: rest)
    else (.mark m, rest)

/-- The lexeme that a text without a gap before it starts with, and what follows. -/
def lexeme (t : Text) : Lexeme × Text :=
  match t with
  | [] => (.finish, [])
  | c :: rest =>
    if c = '"' ∨ c = '\'' then
      match textTail c t rest with
      | some (numbers, after) => (textOf numbers, after)
      | none => (.unknown, [])
    else if c = '\x60' then (templateTail true t rest).getD (.unknown, [])
    else if c.isDigit then number t
    else if c = '.' ∧ rest.head?.any Char.isDigit then number t
    else if c = '#' then
      match wordTail true t rest with
      | some (w, _, after) => (.hidden w, after)
      | none => (.unknown, [])
    else if c = '\\' ∨ isWordStart c then
      match wordTail true (' ' :: t) t with
      | some (w, escaped, after) => (.word w escaped, after)
      | none => (.unknown, [])
    else mark t

/-- The next token, and what follows it. -/
def token (t : Text) : Token × Text :=
  match skipGap .between false t with
  | (.block _, lineEnded, _) => (⟨.unknown, lineEnded⟩, [])
  | (_, lineEnded, rest) => (⟨(lexeme rest).1, lineEnded⟩, (lexeme rest).2)

/-- The first token. Before it a line may stand that tells a system what runs the script. -/
def firstToken (t : Text) : Token × Text :=
  match t with
  | '#' :: '!' :: rest => token (rest.dropWhile fun c => !isLineEnd c)
  | _ => token t

/-- What follows a pattern between slashes, of which the first was read, and its flags. Flags that
there are not, or that are given twice, are refused. -/
def afterPattern? (brackets : Bool) : Text → Option Text
  | [] => none
  | c :: rest =>
    if isLineEnd c then none
    else if c = '\\' then
      match rest with
      | d :: more => if isLineEnd d then none else afterPattern? brackets more
      | [] => none
    else if c = '/' ∧ ¬ brackets then
      let isFlag (c : Char) : Bool := c.isAlphanum || c = '_' || c = '$'
      let flags := rest.takeWhile isFlag
      if flags.all "gimsuydv".toList.contains ∧ flags.eraseDups = flags then
        some (rest.dropWhile isFlag)
      else none
    else afterPattern? ((brackets || c = '[') && c ≠ ']') rest

end Quire.Script
