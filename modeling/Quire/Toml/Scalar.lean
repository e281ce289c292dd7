import Quire.Decimal.Binary64
import Quire.Toml.Quoted

/-!
Values that are written as one word: truth values, integers, decimals, and moments in time. Digits
may be grouped by underscores, each between two digits.
-/

namespace Quire.Toml

/-- The value of a decimal number. -/
inductive Real
  | finite (negative : Bool) (value : Decimal.Binary64)
  | infinite (negative : Bool)
  | nan
deriving DecidableEq

/-- A value without parts. Of a moment nothing is kept. -/
inductive Scalar
  | string (t : Text)
  | integer (n : Int)
  | real (r : Real)
  | boolean (b : Bool)
  | moment
deriving DecidableEq

/-- The digits without the underscores between them, if no underscore stands elsewhere and every
digit is of the given class. -/
def ungroup? (isDigit : Char → Bool) (t : Text) : Option Text :=
  let groups := t.fields '_'
  if groups.all (fun g => g ≠ [] && g.all isDigit) then some groups.flatten else none

/-- The number that digits spell in a base of at most sixteen. -/
def numberIn (base : Nat) (digits : Text) : Nat :=
  digits.foldl (fun n c => base * n + (Digest.hexValue? c).getD 0) 0

/-- Whether an integer has at most 64 binary digits, the sign included. -/
def fits (n : Int) : Bool := -9223372036854775808 ≤ n && n ≤ 9223372036854775807

/-- A word as its sign, if it has one, and the rest. -/
def splitSign : Text → Option Char × Text
  | '+' :: rest => (some '+', rest)
  | '-' :: rest => (some '-', rest)
  | t => (none, t)

/-- The digits of a decimal integer without its sign: a zero only where it is the only digit. -/
def wholeDigits? (t : Text) : Option Text :=
  match ungroup? Char.isDigit t with
  | some ('0' :: _ :: _) => none
  | digits => digits

/-- An integer in the base that a mark announces. -/
def markedInteger? : Text → Option Int
  | '0' :: 'x' :: rest =>
    (ungroup? (fun c => (Digest.hexValue? c).isSome) rest).map (numberIn 16 ·)
  | '0' :: 'o' :: rest => (ungroup? (fun c => '0' ≤ c && c ≤ '7') rest).map (numberIn 8 ·)
  | '0' :: 'b' :: rest => (ungroup? (fun c => c = '0' || c = '1') rest).map (numberIn 2 ·)
  | _ => none

/-- An integer. -/
def integer? (t : Text) : Option Int :=
  let n? : Option Int :=
    match markedInteger? t, splitSign t with
    | some n, _ => some n
    | none, (some '-', rest) => (wholeDigits? rest).map fun d => -(numberIn 10 d : Int)
    | none, (_, rest) => (wholeDigits? rest).map fun d => (numberIn 10 d : Int)
  n?.filter fits

/-- The exponent behind its letter. -/
def exponent? (t : Text) : Option Int :=
  match splitSign t with
  | (some '-', rest) => (ungroup? Char.isDigit rest).map fun d => -(numberIn 10 d : Int)
  | (_, rest) => (ungroup? Char.isDigit rest).map fun d => (numberIn 10 d : Int)

/-- A decimal number without its sign: digits, then a fraction or an exponent or both. -/
def magnitude? (t : Text) : Option Decimal.Scaled := do
  let isMark (c : Char) : Bool := c = 'e' || c = 'E'
  let front := t.takeWhile fun c => !isMark c
  let exponent ←
    match t.dropWhile fun c => !isMark c with
    | [] => some 0
    | _ :: rest => exponent? rest
  match Text.cutFirst ['.'] front with
  | some (whole, part) =>
    let whole ← wholeDigits? whole
    let part ← ungroup? Char.isDigit part
    return ⟨numberIn 10 (whole ++ part), exponent - part.length⟩
  | none =>
    guard (front ≠ t)
    return ⟨numberIn 10 (← wholeDigits? front), exponent⟩

/-- A decimal number. One too large is refused, but one too far below zero is infinite. -/
def real? (t : Text) : Option Real :=
  let (sign, rest) := splitSign t
  let negative : Bool := sign = some '-'
  if rest = "inf".toList then some (.infinite negative)
  else if rest = "nan".toList then some .nan
  else
    (magnitude? rest).bind fun s =>
      match s.nearest? with
      | some value => some (.finite negative value)
      | none => if negative then some (.infinite true) else none

/-- The number that exactly so many digits spell. -/
def digits? (count : Nat) (t : Text) : Option Nat :=
  if t.length = count ∧ t.all Char.isDigit then some (numberIn 10 t) else none

/-- How many days a month has. -/
def daysIn (year month : Nat) : Nat :=
  if month = 2 then
    if year % 4 = 0 ∧ (year % 100 ≠ 0 ∨ year % 400 = 0) then 29 else 28
  else if month = 4 ∨ month = 6 ∨ month = 9 ∨ month = 11 then 30
  else 31

/-- Whether a word is a date. -/
def isDate (t : Text) : Bool :=
  match (t.fields '-') with
  | [year, month, day] =>
    match digits? 4 year, digits? 2 month, digits? 2 day with
    | some y, some m, some d => 1 ≤ m && m ≤ 12 && 1 ≤ d && d ≤ daysIn y m
    | _, _, _ => false
  | _ => false

/-- Whether a word is an hour and a minute. -/
def isHourMinute (hour minute : Text) : Bool :=
  (digits? 2 hour).any (· ≤ 23) && (digits? 2 minute).any (· ≤ 59)

/-- Whether a word is a second, which may be a leap second and may have a fraction. -/
def isSecond (t : Text) : Bool :=
  (digits? 2 (t.take 2)).any (· ≤ 60) &&
    match t.drop 2 with
    | [] => true
    | '.' :: part => part ≠ [] && part.all Char.isDigit
    | _ => false

/-- Whether a word is a time of the day. -/
def isTime (t : Text) : Bool :=
  match t.fields ':' with
  | [hour, minute, second] => isHourMinute hour minute && isSecond second
  | _ => false

/-- Whether a word is a time of the day with, or without, its distance from universal time. -/
def isOffsetTime (t : Text) : Bool :=
  let local' := t.takeWhile fun c => c.isDigit || c = ':' || c = '.'
  isTime local' &&
    match t.drop local'.length with
    | [] => true
    | ['Z'] => true
    | ['z'] => true
    | sign :: rest =>
      (sign = '+' || sign = '-') &&
        match Text.fields ':' rest with
        | [hour, minute] => isHourMinute hour minute
        | _ => false

/-- Whether a word is a date and a time with a letter between them. -/
def isDateTime (t : Text) : Bool :=
  isDate (t.take 10) &&
    match t.drop 10 with
    | 'T' :: time => isOffsetTime time
    | 't' :: time => isOffsetTime time
    | _ => false

/-- The value that a word spells. -/
def Scalar.ofWord? (t : Text) : Option Scalar :=
  if t = "true".toList then some (.boolean true)
  else if t = "false".toList then some (.boolean false)
  else if isDate t || isTime t || isDateTime t then some .moment
  else
    match integer? t with
    | some n => some (.integer n)
    | none => (real? t).map .real

/-- A character that ends a word. -/
def endsWord (c : Char) : Bool :=
  isGap c || c = '\n' || c = '\r' || c = ',' || c = ']' || c = '}' || c = '#'

/-- Reads a value that is written as one word, or as a date and a time with a space between. -/
def word : Reader Scalar := do
  let t ← Reader.many fun c => !endsWord c
  if isDate t then
    match ← Reader.ofText timeBehind with
    | some time => if isOffsetTime time then return .moment else failure
    | none => return .moment
  else Scalar.ofWord? t
where
  /-- The word behind a single space, if there is one. -/
  timeBehind : Text → Option (Option Text × Text)
    | ' ' :: rest =>
      match rest.takeWhile fun c => !endsWord c with
      | [] => some (none, ' ' :: rest)
      | time => some (some time, rest.dropWhile fun c => !endsWord c)
    | rest => some (none, rest)

example : Scalar.ofWord? "-0x1".toList = none := by decide
example : Scalar.ofWord? "1_000".toList = some (.integer 1000) := by decide
example : Scalar.ofWord? "01".toList = none := by decide

end Quire.Toml
